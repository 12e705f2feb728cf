import LagoDB.RuntimePredicates

/-!
# Runtime predicates select what SQL selects

Every leaf the planner builds answers as SQL does, but for columns that the data file
lacks: the row filter orders these below every literal. The marks that the planner puts
on leaves say how far the complement may be trusted.
-/
namespace LagoDB.RuntimePredicates

open SqlLogic Pushdown ExceptLoop Iceberg NumericCodec Option Bool IcebergPredicatePlanner
open PlannedIcebergColumn SqlValue Int32OutOfRange RuntimePredicateValue PgComparisonKind

/-- iceberg-lite's predicates and decimals. -/
structure IcebergLiteLaws (planner : IcebergPredicatePlanner) : Prop extends
    planner.api.Laws where
  decimal : ∀ coefficient precision scale datum,
    planner.decimalFromUnscaled coefficient precision scale = .ok datum →
      datum = .decimal coefficient precision scale

attribute [local simp] PgComparisonKind.truth

namespace IcebergPredicatePlanner

/-! ## Rows -/

section Rows

variable (planner : IcebergPredicatePlanner)

/-- Every projected column stores values its Arrow field was built for. -/
def Stores (row : Row) : Prop :=
  ∀ (column : ℕ) (field : ArrowField) (fieldId : ℤ), planner.arrowSchema[column]? = some field →
    planner.fieldIds[column]? = some fieldId → ∀ stored, row fieldId = some stored →
      field.Carries stored

abbrev StoredRow := { row : Row // planner.Stores row }

def stored (row : Row) (column : ℕ) : Option Datum := do
  let fieldId ← planner.fieldIds[column]?
  row fieldId

/-- Widening an integer keeps its value. -/
def sql (row : Row) : RuntimePredicateScalar → Option SqlValue
  | .column column => (planner.stored row column).map Datum.read
  | .widenedIntegerColumn column _ => (planner.stored row column).map Datum.read
  | .value value => some value.toSql

/-- Sets are never planned, so their meaning is left open. -/
def semantics (member : RuntimeComparisonOperator → RuntimePredicateScalar →
    RuntimePredicateScalar → Row → Truth) :
    ScalarSemantics RuntimePredicateScalar RuntimeComparisonOperator planner.StoredRow where
  isNull scalar row := (planner.sql row scalar).isNone
  boolean scalar row := SqlValue.truth (planner.sql row scalar)
  compare operator left right row :=
    (operatorClass operator).truth byteOrder (planner.sql row left) (planner.sql row right)
  isNan scalar row := SqlValue.nanTruth (planner.sql row scalar)
  startsWith value pre row := SqlValue.prefixTruth (planner.sql row value) (planner.sql row pre)
  inSet operator value set row := member operator value set row

/-- The data file of the row has no such column. -/
def lacks (row : Row) : RuntimePredicateScalar → Bool
  | .column column | .widenedIntegerColumn column _ =>
    (planner.fieldIds[column]?).any (!row.present ·)
  | .value _ => false

/-- A widened column against a literal no such column can store. -/
def clips : RuntimePredicateScalar → RuntimePredicateScalar → Bool
  | .widenedIntegerColumn _ .toInt64, .value (.int64 value) =>
    match Int32OutOfRange.narrow value with
    | .ok _ => false
    | .error _ => true
  | _, _ => false

/-- What the row filter makes of a column against a value. -/
def filterTruth (row : Row) (operator : RuntimeComparisonOperator)
    (column value : RuntimePredicateScalar) : Truth :=
  if planner.lacks row column && !clips column value then (operatorClass operator).absentTruth
  else (operatorClass operator).truth byteOrder (planner.sql row column) (planner.sql row value)

/-- The row filter's reading; it has the column on the left. -/
def filterSemantics (member : RuntimeComparisonOperator → RuntimePredicateScalar →
    RuntimePredicateScalar → Row → Truth) :
    ScalarSemantics RuntimePredicateScalar RuntimeComparisonOperator planner.StoredRow where
  __ := planner.semantics member
  compare operator left right row :=
    match left with
    | .value _ => planner.filterTruth row (mirrorOperator operator) right left
    | _ => planner.filterTruth row operator left right

def holds (predicate : Predicate) (row : planner.StoredRow) : Bool :=
  planner.api.selects predicate row

/-- Whether a row passes the predicate, or its complement. -/
def passes (row : Row) (predicate : Predicate) (wanted : Bool) : Bool :=
  planner.api.selects (if wanted then predicate else planner.api.not predicate) row

end Rows

/-! ## Two readings -/

section Readings

variable {pl : IcebergPredicatePlanner} {row : Row}

lemma sql_lacks {s : RuntimePredicateScalar} (h : pl.lacks row s = true) : pl.sql row s = none := by
  cases s with
  | column l | widenedIntegerColumn l target =>
    obtain ⟨f, hf, hn⟩ := (any_eq_true _ _).mp h
    simp [sql, stored, hf, row.absent f (by simpa using hn)]
  | value v => cases h

lemma operatorClass_mirror (op : RuntimeComparisonOperator) (left right : Option SqlValue) :
    (operatorClass (mirrorOperator op)).truth byteOrder right left =
      (operatorClass op).truth byteOrder left right := by
  rw [← truth_mirrored]
  cases op <;> rfl

lemma truth_refines (op : RuntimeComparisonOperator) (column value : RuntimePredicateScalar) :
    Truth.Refines ((operatorClass op).truth byteOrder (pl.sql row column) (pl.sql row value))
      (pl.filterTruth row op column value) := by
  intro v hv
  unfold filterTruth
  split_ifs with h
  · rw [sql_lacks ((and_eq_true _ _).mp h).1] at hv
    cases hv
  · exact hv

variable
  {member : RuntimeComparisonOperator → RuntimePredicateScalar → RuntimePredicateScalar → Row →
    Truth} {stored : pl.StoredRow}

/-- The row filter decides nothing otherwise than SQL does. -/
lemma semantics_refines (e : RuntimePruningPredicate) :
    Truth.Refines (e.eval (pl.semantics member) stored)
      (e.eval (pl.filterSemantics member) stored) := by
  refine @eval_refines _ _ _ (pl.semantics member) _ _ _ (fun operator l right => ?_) e
  cases l with
  | value v =>
    have ht := @truth_refines pl stored (mirrorOperator operator) right (.value v)
    rwa [operatorClass_mirror] at ht
  | _ => exact truth_refines operator _ right

/-- With every column in the file there is one reading. -/
lemma filterSemantics_refines (h : ∀ id, stored.1.present id = true) (e : RuntimePruningPredicate) :
    Truth.Refines (e.eval (pl.filterSemantics member) stored)
      (e.eval (pl.semantics member) stored) := by
  have hl (s : RuntimePredicateScalar) : pl.lacks stored s = false := by
    cases s <;> simp [lacks, h]
  refine @eval_refines _ _ _ (pl.semantics member) _ _ _ (fun operator l right v hv => ?_) e
  cases l with
  | value v =>
    simp only [filterTruth, hl, operatorClass_mirror] at hv
    exact hv
  | _ =>
    simp only [filterTruth, hl] at hv
    exact hv

end Readings

/-! ## Connectives -/

section Connectives

variable {pl : IcebergPredicatePlanner}

section

variable {combine : Predicate → Predicate → Predicate} (g : Predicate → Bool) (e : Predicate)
  {ps : List Predicate} (h : ps ≠ [])

include g h

lemma reduce_all (hc : ∀ left right, g (combine left right) = (g left && g right)) :
    g (reduce combine e ps) = ps.all g := by
  cases ps with
  | nil => exact absurd rfl h
  | cons f r =>
    rw [reduce]
    clear h
    induction r generalizing f with
    | nil => simp
    | cons n r ih => rw [List.foldl_cons, ih]; simp [hc, Bool.and_assoc]

lemma reduce_any (hc : ∀ left right, g (combine left right) = (g left || g right)) :
    g (reduce combine e ps) = ps.any g := by
  have hn : (!g (reduce combine e ps)) = ps.all fun p => !g p :=
    reduce_all (fun p => !g p) e h fun left right => by rw [hc, Bool.not_or]
  rw [List.any_eq_not_all_not, ← hn, Bool.not_not]

end

lemma adapter_laws (laws : IcebergLiteLaws pl) : ConnectiveLaws pl.adapter pl.holds where
  conjunction _ h row := reduce_all (pl.holds · row) _ h fun l right => laws.and l right row
  disjunction _ h row := reduce_any (pl.holds · row) _ h fun l right => laws.or l right row
  negateConjunction _ h row := reduce_any (fun p => pl.holds (pl.api.not p) row) _ h
      fun l right => laws.not_and l right row
  negateDisjunction _ h row := reduce_all (fun p => pl.holds (pl.api.not p) row) _ h
      fun l right => laws.not_or l right row
  negateNegate predicate row := laws.not_not predicate row

end Connectives

/-! ## Leaves -/

section Leaves

variable {pl : IcebergPredicatePlanner} {q : PlannedIcebergColumn} {row : Row}
  {operator op : RuntimeComparisonOperator} {t : Datum}

lemma predicateOperator_eq (op : RuntimeComparisonOperator) :
    predicateOperator op = (operatorClass op).toBinary := by
  cases op <;> rfl

lemma comparison_passes (laws : IcebergLiteLaws pl) {v : SqlValue} (h : q.Orders row t v)
    (w : Bool) : pl.passes row (q.comparison (predicateOperator op) t) w = true ↔
      q.filterTruth (operatorClass op) row (operatorClass op).absentTruth (some v) = some w := by
  rw [predicateOperator_eq]
  cases w with
  | true => exact comparison_selects laws.toLaws h
  | false =>
    rw [← Truth.not_eq_true, ← filterTruth_negated, ← negated_absentTruth,
      ← comparison_selects laws.toLaws h, passes, if_neg Bool.false_ne_true,
      PlannedIcebergColumn.comparison,
      laws.not_binary _ _ _ _ _ (opposite_toBinary _)]
    rfl

variable {column : ℕ}

lemma reference_eq (h : pl.reference column = .ok q) :
    ∃ f, pl.arrowSchema[column]? = some f ∧ pl.fieldIds[column]? = some q.fieldId := by
  unfold reference at h
  split at h
  next => cases h
  next => cases h
  next i f hi hf =>
    cases h
    exact ⟨f, hf, hi⟩

lemma stored_reference (h : pl.reference column = .ok q) (row : Row) :
    pl.stored row column = row q.fieldId := by
  obtain ⟨f, _, hi⟩ := reference_eq h
  rw [stored, hi]
  rfl

/-- The stored values behind a column of a kind. Binary values are told apart by
the field only. -/
def StoredAs (field : ArrowField) (stored : Datum) : PredicateValueKind → Prop
  | .boolean => ∃ value, stored = .bool value
  | .integer => ∃ value, stored = .int value ∧ stored.inRange
  | .long => ∃ value, stored = .long value
  | .date => ∃ days, stored = .date days
  | .timestamp => ∃ micros, stored = .timestamp micros
  | .timestamptz => ∃ micros, stored = .timestamptz micros
  | .decimal => ∃ unscaled precision scale, field.dataType = .decimal128 precision scale ∧
      stored = .decimal unscaled precision scale.toNat
  | .string => ∃ bytes, stored = .string bytes
  | .binary | .float | .time => True

lemma type_cases (z : Datum) : match z.type with
    | .boolean => ∃ v, z = .bool v
    | .int => ∃ v, z = .int v
    | .long => ∃ v, z = .long v
    | .date => ∃ ds, z = .date ds
    | .timestamp => ∃ ms, z = .timestamp ms
    | .timestamptz => ∃ ms, z = .timestamptz ms
    | .decimal precision scale => ∃ u, z = .decimal u precision scale
    | .string => ∃ bs, z = .string bs
    | .binary => ∃ bs, z = .binary bs
    | .fixed _ => ∃ bs, z = .fixed bs
    | .uuid => ∃ bs, z = .uuid bs
    | _ => True := by
  cases z <;> simp [Datum.type]

variable {f : ArrowField} {z : Datum}

lemma carries_storedAs {k : PredicateValueKind} (hk : dataTypeKind f.dataType = some k)
    (h : f.Carries z) : StoredAs f z k := by
  have hc := type_cases z
  unfold ArrowField.Carries at h
  cases ht : f.dataType with
  | int8 | int16 | int32 =>
    rw [ht] at h hk
    cases hk
    rw [h.1] at hc
    obtain ⟨value, hs⟩ := hc
    exact ⟨value, hs, h.2⟩
  | decimal128 p s =>
    rw [ht] at h hk
    cases hk
    rw [show z.type = .decimal p s.toNat from h] at hc
    obtain ⟨u, hs⟩ := hc
    exact ⟨u, p, s, ht, hs⟩
  | timestamp unit t =>
    rw [ht] at h hk
    cases unit with
    | microsecond =>
      cases t with
      | none | some zone =>
        cases hk
        rw [h] at hc
        exact hc
    | _ => cases hk
  | time64 unit =>
    rw [ht] at hk
    cases unit with
    | microsecond =>
      cases hk
      trivial
    | _ => cases hk
  | binary | largeBinary | binaryView | fixedSizeBinary width | float32 | float64 =>
    rw [ht] at hk
    cases hk
    trivial
  | other =>
    rw [ht] at hk
    cases hk
  | _ =>
    rw [ht] at h hk
    cases hk
    rw [h] at hc
    exact hc

lemma comparisonDatum_plain {v : RuntimePredicateValue} (l : ℕ) (h : ∀ bs, v ≠ .binary bs) :
    pl.comparisonDatum l v = (pl.datum v).map some := by
  unfold comparisonDatum
  split
  · exact absurd rfl (h _)
  · rfl

lemma binary_orders {bs : Bytes} (hf : pl.arrowSchema[column]? = some f)
    (hd : pl.comparisonDatum column (.binary bs) = .ok (some t))
    (hc : f.Carries z) : z.type = t.type ∧ ∃ r, z.order t = some r ∧
      z.read.order byteOrder (.binary bs) = some r := by
  have hca := type_cases z
  unfold comparisonDatum at hd
  rw [hf] at hd
  unfold ArrowField.Carries at hc
  dsimp only at hd
  split at hd
  next w ht =>
    rw [ht] at hc
    dsimp only at hc
    by_cases hl : bs.length = w
    swap
    · rw [if_neg hl] at hd
      cases hd
    rw [if_pos hl] at hd
    by_cases hu : f.extensionTypeName = some arrowUuid
    · rw [if_pos hu] at hd hc
      split_ifs at hd
      cases hd
      rw [hc] at hca
      obtain ⟨o, rfl⟩ := hca
      exact ⟨rfl, _, rfl, rfl⟩
    · rw [if_neg hu] at hd hc
      cases hd
      rw [hc] at hca
      obtain ⟨o, rfl⟩ := hca
      exact ⟨hc.trans (congrArg _ hl.symm), _, rfl, rfl⟩
  iterate 3
    next ht =>
      cases hd
      rw [ht] at hc
      rw [hc] at hca
      obtain ⟨o, rfl⟩ := hca
      exact ⟨rfl, _, rfl, rfl⟩
  next => cases hd

lemma datum_orders (laws : IcebergLiteLaws pl) {v : RuntimePredicateValue}
    (hf : pl.arrowSchema[column]? = some f) (hk : dataTypeKind f.dataType = some (valueKind v))
    (hsh : decimalShape f.dataType v = true) (hd : pl.comparisonDatum column v = .ok (some t))
    (hc : f.Carries z) :
    z.type = t.type ∧ ∃ r, z.order t = some r ∧ z.read.order byteOrder v.toSql = some r := by
  have hshi (a b c : ℤ) : compare (a - c) (b - c) = compare a b := by
    rw [compare_sub_right, sub_add_cancel]
  have hs := carries_storedAs hk hc
  by_cases hb : ∃ y, v = .binary y
  · obtain ⟨y, rfl⟩ := hb
    exact binary_orders hf hd hc
  rw [comparisonDatum_plain column fun y hsa => hb ⟨y, hsa⟩] at hd
  cases v with
  | binary y => exact absurd ⟨y, rfl⟩ hb
  | decimal128 co p scale =>
    obtain ⟨u, cp, s, ht, rfl⟩ := hs
    rw [ht] at hsh
    obtain ⟨rfl, rfl⟩ : cp = p ∧ s = scale := by simpa [decimalShape] using hsh
    obtain ⟨d, ho, hsa⟩ := map_eq_ok hd
    cases hsa
    rw [datum] at ho
    split_ifs at ho with hn
    obtain rfl := laws.decimal _ _ _ _ ho
    have hsc : (s.toNat : ℤ) = s := Int.toNat_of_nonneg (not_lt.mp hn)
    have hp : (10 : ℚ) ^ s = 10 ^ s.toNat := by rw [← zpow_natCast, hsc]
    refine ⟨rfl, compare u co, by simp [Datum.order], ?_⟩
    rw [Datum.read, toSql, order, NumericValue.order, hp, compare_scaled]
  | date32 ds =>
    obtain ⟨o, rfl⟩ := hs
    cases hd
    exact ⟨rfl, _, rfl, congrArg some (hshi o ds _)⟩
  | timestampMicrosecond m | timestampTzMicrosecond m =>
    obtain ⟨o, rfl⟩ := hs
    cases hd
    exact ⟨rfl, _, rfl, congrArg some (hshi o m _)⟩
  | int32 v =>
    obtain ⟨o, rfl, _⟩ := hs
    cases hd
    exact ⟨rfl, _, rfl, rfl⟩
  | boolean v | int64 v | string v =>
    obtain ⟨o, rfl⟩ := hs
    cases hd
    exact ⟨rfl, _, rfl, rfl⟩

end Leaves

/-! ## Leaf plans -/

section Plans

variable {pl : IcebergPredicatePlanner} {c : pl.StoredRow → Truth} {plan : PredicatePlan Predicate}
  {p : Predicate} {operator op : RuntimeComparisonOperator}

abbrev Marks (planner : IcebergPredicatePlanner) (condition : planner.StoredRow → Truth)
    (plan : PredicatePlan Predicate) : Prop :=
  plan.Meets planner.holds planner.adapter.negate condition

lemma exact_marks (h : ∀ (row : pl.StoredRow) wanted,
      pl.passes row p wanted = true ↔ c row = some wanted) : pl.Marks c (.exact p) := by
  refine ⟨fun row => h row true, fun row => ?_⟩
  rw [Truth.not_eq_true]
  exact h row false

variable (capability : SupportedPredicateCapability)

lemma accepted_marks
    (h : ∀ (row : pl.StoredRow) wanted, pl.passes row p wanted = true ↔ c row = some wanted) :
    pl.Marks c (accepted capability p) := by
  cases capability with
  | exact => exact exact_marks h
  | conservative => exact fun row => (h row true).mpr

lemma acceptedWithoutComplement_marks
    (h : ∀ row : pl.StoredRow, pl.holds p row = true ↔ c row = some true) :
    pl.Marks c (acceptedWithoutComplement capability p) := by
  cases capability with
  | exact => exact h
  | conservative => exact fun row => (h row).mpr

variable {value : RuntimePredicateScalar}

lemma columnTest_marks {ss : PredicateValueKind → Bool}
    {leaf : PlannedIcebergColumn → PredicatePlan Predicate}
    (h : pl.columnTest value ss leaf = .ok plan)
    (hl : ∀ l q k, value = .column l → pl.reference l = .ok q → pl.columnKind l = some k →
      ss k = true → pl.Marks c (leaf q)) : pl.Marks c plan := by
  unfold columnTest at h
  split at h
  next l =>
    split_ifs at h with hk
    · obtain ⟨k, hso, hs⟩ := (any_eq_true _ _).mp hk
      obtain ⟨q, hr, rfl⟩ := map_eq_ok h
      exact hl l q k rfl hr hso hs
    · cases h
      trivial
  next =>
    cases h
    trivial

variable {l : ℕ}

lemma sql_reference {q : PlannedIcebergColumn} (h : pl.reference l = .ok q) (row : Row) :
    pl.sql row (.column l) = q.value row := by
  rw [sql, stored_reference h, value]

lemma nullTest_passes (laws : IcebergLiteLaws pl) (q : PlannedIcebergColumn) (n w : Bool)
    (row : Row) : pl.passes row (q.nullTest n) w = true ↔
      (if n then !(q.value row).isNone else (q.value row).isNone) = w := by
  have ho : pl.api.selects (pl.api.not (q.nullTest n)) row =
      pl.api.selects (q.nullTest !n) row := by
    cases n <;> exact laws.not_unary _ _ row
  cases w with
  | true => cases n <;> simp [passes, nullTest_eval laws.toLaws]
  | false => cases n <;> simp [passes, ho, nullTest_eval laws.toLaws]

lemma nullTest_marks (laws : IcebergLiteLaws pl) {n : Bool} (h : pl.nullTest value n = .ok plan) :
    pl.Marks (fun row => some (if n then !(pl.sql row value).isNone
      else (pl.sql row value).isNone)) plan := by
  refine columnTest_marks h fun l q _ hv hr _ _ => ?_
  subst hv
  refine exact_marks fun row w => ?_
  rw [nullTest_passes laws, sql_reference hr, some_inj]

lemma strictTrue_marks (laws : IcebergLiteLaws pl) (h : pl.strictTrue value = .ok plan) :
    pl.Marks (fun row => if (pl.sql row value).isNone then none else some true) plan := by
  refine columnTest_marks h fun l q _ hv hr _ _ row => ?_
  subst hv
  rw [holds, nullTest_eval laws.toLaws, sql_reference hr]
  cases q.value row <;> simp

lemma strictFalse_marks (laws : IcebergLiteLaws pl) (h : pl.strictFalse value = .ok plan) :
    pl.Marks (fun row => if (pl.sql row value).isNone then none else some false) plan := by
  unfold strictFalse at h
  split at h
  next l =>
    obtain ⟨b, _, rfl⟩ := map_eq_ok h
    intro row
    rw [holds, laws.always_false]
    dsimp only
    split_ifs <;> simp
  next =>
    cases h
    trivial

lemma nanTest_marks (laws : IcebergLiteLaws pl) {n : Bool} (h : pl.nanTest value n = .ok plan) :
    pl.Marks (fun row => if n then Truth.not (nanTruth (pl.sql row value))
      else nanTruth (pl.sql row value)) plan := by
  refine columnTest_marks h fun l q _ hv hr _ _ row => ?_
  subst hv
  rw [holds, nanTest_iff laws.toLaws, sql_reference hr]
  cases n with
  | true => exact Truth.not_eq_true.symm
  | false => rfl

lemma columnKind_eq {k : PredicateValueKind} (h : pl.columnKind l = some k) :
    ∃ f, pl.arrowSchema[l]? = some f ∧ dataTypeKind f.dataType = some k :=
  bind_eq_some_iff.mp h

lemma stored_kind {q : PlannedIcebergColumn} {k : PredicateValueKind}
    (hr : pl.reference l = .ok q) (hk : pl.columnKind l = some k)
    (row : pl.StoredRow) {z : Datum} (hro : row.1 q.fieldId = some z) :
    ∃ f, pl.arrowSchema[l]? = some f ∧ dataTypeKind f.dataType = some k ∧ f.Carries z := by
  obtain ⟨f, hf, hi⟩ := reference_eq hr
  obtain ⟨o, ho, hdt⟩ := columnKind_eq hk
  obtain rfl : f = o := Option.some.inj (hf.symm.trans ho)
  exact ⟨f, hf, hdt, row.2 l f _ hf hi z hro⟩

lemma booleanTest_marks (laws : IcebergLiteLaws pl) {k : BooleanTestKind}
    (h : pl.booleanTest k value = .ok plan) :
    pl.Marks (fun row => some (k.test (truth (pl.sql row value)))) plan := by
  refine columnTest_marks h fun l q ck hv hr hco hb row => ?_
  subst hv
  obtain rfl : ck = .boolean := by simpa using hb
  have hty (z : Datum) (hs : row.1 q.fieldId = some z) : z.type = .boolean := by
    obtain ⟨f, _, hk, hc⟩ := stored_kind hr hco row hs
    obtain ⟨value, rfl⟩ := carries_storedAs hk hc
    rfl
  rw [holds, booleanTest_iff laws.toLaws k hty, sql_reference hr, some_inj]

lemma startsWith_marks (laws : IcebergLiteLaws pl) {p : RuntimePredicateScalar}
    (h : pl.startsWith value p = .ok plan) :
    pl.Marks (fun row => prefixTruth (pl.sql row value) (pl.sql row p)) plan := by
  unfold startsWith at h
  split at h
  next l p =>
    split_ifs at h with hs
    · obtain ⟨ha, hst⟩ := hs
      obtain ⟨k, hco, hsu⟩ := (any_eq_true _ _).mp ha
      obtain rfl : k = .string := by simpa [supportsStartsWith] using hsu
      obtain ⟨b, hre, hr⟩ := bind_eq_ok h
      obtain ⟨d, hd, hp⟩ := bind_eq_ok hr
      cases hp
      obtain ⟨bs, rfl⟩ : ∃ bs, p = .string bs := by
        cases p with
        | string bs => exact ⟨bs, rfl⟩
        | _ => cases hst
      cases hd
      intro row
      have hty (z : Datum) (hs : row.1 b.fieldId = some z) : z.type = .string := by
        obtain ⟨f, _, hk, hc⟩ := stored_kind hre hco row hs
        obtain ⟨t, rfl⟩ := carries_storedAs hk hc
        rfl
      dsimp only
      rw [sql_reference hre]
      exact prefix_iff laws.toLaws bs hty
    · cases h
      trivial
  next =>
    cases h
    trivial

variable {value : RuntimePredicateValue}

/-- The scalar reads the column, plain or widened. -/
lemma filterTruth_reference {q : PlannedIcebergColumn} {s : RuntimePredicateScalar}
    (h : pl.reference l = .ok q) (hs : s = .column l ∨ ∃ t, s = .widenedIntegerColumn l t)
    (hc : clips s (.value value) = false) (row : Row) :
    pl.filterTruth row op s (.value value) = q.filterTruth (operatorClass op) row
      (operatorClass op).absentTruth (some value.toSql) := by
  obtain ⟨f, _, hi⟩ := reference_eq h
  have hsql : pl.sql row s = q.value row := by
    rcases hs with rfl | ⟨t, rfl⟩ <;> rw [sql, stored_reference h, PlannedIcebergColumn.value]
  have hl : pl.lacks row s = !row.present q.fieldId := by
    rcases hs with rfl | ⟨t, rfl⟩ <;> simp [lacks, hi]
  rw [filterTruth, PlannedIcebergColumn.filterTruth, hc, hl, hsql]
  cases row.present q.fieldId <;> rfl

lemma columnComparison_marks (laws : IcebergLiteLaws pl)
    (h : pl.columnComparison l op value = .ok plan) :
    pl.Marks (fun row => pl.filterTruth row op (.column l) (.value value)) plan := by
  unfold columnComparison at h
  split at h
  next =>
    cases h
    trivial
  next k hco =>
    split_ifs at h with hd
    · cases h
      trivial
    · obtain ⟨hsa, hm⟩ := not_or.mp hd
      obtain rfl := not_ne_iff.mp hsa
      split at h
      next =>
        cases h
        trivial
      next c hca =>
        obtain ⟨d, hda, hr⟩ := bind_eq_ok h
        cases d with
        | none =>
          cases hr
          trivial
        | some literal =>
          obtain ⟨b, hre, hp⟩ := bind_eq_ok hr
          have ho (row : pl.StoredRow) : b.Orders row literal value.toSql := by
            intro stored hro
            obtain ⟨f, hf, hk, hc⟩ := stored_kind hre hco row hro
            have hs : decimalShape f.dataType value = true := by
              simpa [decimalShapeMatches, hf] using hm
            exact datum_orders laws hf hk hs hda hc
          cases hp
          refine accepted_marks c fun row w => ?_
          rw [comparison_passes laws (ho row), filterTruth_reference hre (.inl rfl) rfl]

variable {i : RuntimeIntegerWidening}

lemma stored_widened (hw : pl.supportsIntegerWidening l i = true) (row : pl.StoredRow) (d : Datum)
    (hs : pl.stored row l = some d) : ∃ value, d = .int value ∧ d.inRange := by
  obtain ⟨f, hi, hr⟩ := bind_eq_some_iff.mp hs
  unfold supportsIntegerWidening at hw
  split at hw
  next => cases hw
  next field hf =>
    have hc := row.2 l field f hf hi d hr
    have hk : dataTypeKind field.dataType = some .integer := by
      split at hw
      next ht => rw [ht]; rfl
      next ht => rw [ht]; rfl
      next => cases hw
    exact carries_storedAs hk hc

lemma outOfRange_truth {z : Option Datum} {v : ℤ} {b : Int32OutOfRange} (k : PgComparisonKind)
    (h : narrow v = .error b) (hi : ∀ d, z = some d → ∃ v, d = .int v ∧ d.inRange) :
    k.truth byteOrder (z.map Datum.read) (some (.integral v)) =
      if z.isNone then none else some (b.comparisonMatchesNonNull k) := by
  cases z with
  | none => rfl
  | some d =>
    obtain ⟨t, rfl, hr⟩ := hi d rfl
    obtain ⟨o, ho, ha⟩ := narrow_outside h hr
    simp [ho, ha]

lemma widenedPredicate_clipped {v : ℤ} {b : Int32OutOfRange} {built : Option (Predicate × Bool)}
    (hn : narrow v = .error b) (h : pl.widenedPredicate l .toInt64 op (.int64 v) = .ok built) :
    ∃ p, built = some (p, false) := by
  rw [widenedPredicate, hn] at h
  dsimp only at h
  split_ifs at h
  · obtain ⟨builder, _, rfl⟩ := map_eq_ok h
    exact ⟨_, rfl⟩
  · cases h
    exact ⟨_, rfl⟩

lemma widenedPredicate_passes (laws : IcebergLiteLaws pl) {c : Bool}
    (hwi : pl.supportsIntegerWidening l i = true) (h : pl.widenedPredicate l i op value =
      .ok (some (p, c))) (row : pl.StoredRow) (w : Bool) (hw : c = true ∨ w = true) :
    pl.passes row p w = true ↔
      pl.filterTruth row op (.widenedIntegerColumn l i) (.value value) = some w := by
  have hints := stored_widened hwi row
  have hi {builder : PlannedIcebergColumn} (hr : pl.reference l = .ok builder) (literal : ℤ)
      (hv : value.toSql = .integral literal)
      (hc : clips (.widenedIntegerColumn l i) (.value value) = false) :
      pl.passes row (builder.comparison (predicateOperator op) (.int literal)) w = true ↔
        pl.filterTruth row op (.widenedIntegerColumn l i) (.value value) = some w := by
    have ho : builder.Orders row (.int literal) (.integral literal) := by
      intro d hro
      obtain ⟨o, rfl, _⟩ := hints d ((stored_reference hr row).trans hro)
      exact ⟨rfl, _, rfl, rfl⟩
    rw [comparison_passes laws ho, filterTruth_reference hr (.inr ⟨i, rfl⟩) hc, hv]
  have hp := h
  unfold widenedPredicate at h
  split at h
  next literal =>
    obtain ⟨builder, hr, hs⟩ := map_eq_ok h
    cases hs
    exact hi hr literal rfl rfl
  next literal =>
    split at h
    next n hn =>
      obtain ⟨builder, hr, hs⟩ := map_eq_ok h
      cases hs
      have hc : clips (.widenedIntegerColumn l .toInt64) (.value (.int64 literal)) = false := by
        simp [clips, hn]
      obtain rfl : n = literal := by
        unfold Int32OutOfRange.narrow at hn
        split_ifs at hn
        exact (Except.ok.inj hn).symm
      exact hi hr n rfl hc
    next b hn =>
      -- A clipped comparison reads the column for NULL only, present or not.
      obtain ⟨_, hu⟩ := widenedPredicate_clipped hn hp
      cases hu
      obtain rfl : w = true := hw.resolve_left nofun
      have hc : clips (.widenedIntegerColumn l .toInt64) (.value (.int64 literal)) = true := by
        simp [clips, hn]
      rw [filterTruth, hc, Bool.not_true, Bool.and_false, if_neg Bool.false_ne_true, sql, sql,
        toSql, outOfRange_truth _ hn hints]
      split_ifs at h with hm
      · obtain ⟨builder, hr, hs⟩ := map_eq_ok h
        cases hs
        rw [nullTest_passes laws, value, ← stored_reference hr row, hm]
        cases pl.stored row l <;> simp
      · cases h
        rw [passes, if_pos rfl, laws.always_false, eq_false_iff.mpr hm]
        split_ifs <;> simp
  next => cases h

lemma widenedIntegerComparison_marks (laws : IcebergLiteLaws pl)
    (h : pl.widenedIntegerComparison l i op value = .ok plan) :
    pl.Marks (fun row => pl.filterTruth row op (.widenedIntegerColumn l i)
      (.value value)) plan := by
  unfold widenedIntegerComparison at h
  split_ifs at h with hw
  · split at h
    next =>
      cases h
      trivial
    next c _ =>
      obtain ⟨b, hb, hp⟩ := map_eq_ok h
      cases b with
      | none =>
        subst hp
        trivial
      | some pair =>
        obtain ⟨p, o⟩ := pair
        have hs := widenedPredicate_passes laws hw hb
        cases o with
        | true =>
          subst hp
          exact accepted_marks c fun row w => hs row w (.inl rfl)
        | false =>
          subst hp
          exact acceptedWithoutComplement_marks c fun row => hs row true (.inr rfl)
  · cases h
    trivial

lemma comparison_marks (laws : IcebergLiteLaws pl) {left right : RuntimePredicateScalar}
    {member : RuntimeComparisonOperator → RuntimePredicateScalar → RuntimePredicateScalar → Row →
      Truth} (h : pl.comparison op left right = .ok plan) :
    pl.Marks ((PredicateExpr.comparison op left right).eval (pl.filterSemantics member)) plan := by
  unfold comparison at h
  split at h
  next => exact columnComparison_marks laws h
  next => exact widenedIntegerComparison_marks laws h
  next => exact columnComparison_marks laws h
  next => exact widenedIntegerComparison_marks laws h
  next =>
    cases h
    trivial

end Plans

/-! ## Trees -/

section Trees

variable {planner : IcebergPredicatePlanner}
  {member : RuntimeComparisonOperator → RuntimePredicateScalar → RuntimePredicateScalar → Row →
    Truth}

lemma leaf_marks (laws : IcebergLiteLaws planner) (leaf : RuntimePruningPredicate)
    (hl : leaf.isLeaf = true) (plan : PredicatePlan Predicate)
    (h : leaf.planWith planner.adapter = .ok plan) :
    planner.Marks (leaf.eval (planner.filterSemantics member)) plan := by
  cases leaf with
  | alwaysTrue | alwaysFalse =>
    cases h
    exact exact_marks fun row w => by
      cases w <;> simp [PredicateExpr.eval, passes, laws.always_true, laws.always_false,
        laws.not_true, laws.not_false]
  | strictTrue value => exact strictTrue_marks laws h
  | strictFalse value => exact strictFalse_marks laws h
  | comparison op l right => exact comparison_marks laws h
  | booleanTest k value => exact booleanTest_marks laws h
  | isNull | isNotNull => exact nullTest_marks laws h
  | isNan | isNotNan => exact nanTest_marks laws h
  | startsWith value p => exact startsWith_marks laws h
  | inSet op value set =>
    cases h
    trivial
  | and | or | not => cases hl

def isClipped : RuntimePruningPredicate → Bool
  | .comparison _ left right => clips left right || clips right left
  | _ => false

lemma widened_clipped {l : ℕ} {op : RuntimeComparisonOperator} {v : ℤ}
    {d : Int32OutOfRange} (hn : narrow v = .error d) (p : Predicate) :
    planner.widenedIntegerComparison l .toInt64 op (.int64 v) ≠ .ok (.exact p) := by
  intro h
  unfold widenedIntegerComparison at h
  split_ifs at h
  · split at h
    next => cases h
    next c _ =>
      obtain ⟨b, hb, hp⟩ := map_eq_ok h
      obtain ⟨cl, rfl⟩ := widenedPredicate_clipped hn hb
      cases c <;> cases hp
  · cases h

lemma clips_eq_true {column value : RuntimePredicateScalar} (h : clips column value = true) :
    ∃ l v b, column = .widenedIntegerColumn l .toInt64 ∧ value = .value (.int64 v) ∧
      narrow v = .error b := by
  unfold clips at h
  split at h
  next l v =>
    cases hn : narrow v with
    | ok n => simp [hn] at h
    | error b => exact ⟨l, v, b, rfl, rfl, hn⟩
  next => cases h

lemma isClipped_not_exact {leaf : RuntimePruningPredicate} (h : isClipped leaf = true)
    (p : Predicate) : leaf.planWith planner.adapter ≠ .ok (.exact p) := by
  cases leaf with
  | comparison operator l right =>
    rcases (or_eq_true _ _).mp h with hc | hc
    · obtain ⟨_, _, _, rfl, rfl, hn⟩ := clips_eq_true hc
      exact widened_clipped hn p
    · obtain ⟨_, _, _, rfl, rfl, hn⟩ := clips_eq_true hc
      exact widened_clipped hn p
  | _ => cases h

/-- The tree has the value in the row filter's reading only where it has it in SQL: ordering
the columns that the row's file lacks below every literal makes no difference. -/
def FilterAgrees (planner : IcebergPredicatePlanner)
    (member : RuntimeComparisonOperator → RuntimePredicateScalar → RuntimePredicateScalar → Row →
      Truth)
    (e : RuntimePruningPredicate) (row : planner.StoredRow) (value : Bool) : Prop :=
  e.eval (planner.filterSemantics member) row = some value →
    e.eval (planner.semantics member) row = some value

/-- What the plan of a runtime predicate promises by its mark. -/
structure PlanSelects (planner : IcebergPredicatePlanner)
    (member : RuntimeComparisonOperator → RuntimePredicateScalar → RuntimePredicateScalar → Row →
      Truth)
    (e : RuntimePruningPredicate) (plan : PredicatePlan Predicate) : Prop where
  exact : ∀ predicate, plan = .exact predicate ∨ plan = .exactNoComplement predicate →
    ∀ row : planner.StoredRow, (planner.api.selects predicate row = true ↔
      e.eval (planner.semantics member) row = some true) ↔ planner.FilterAgrees member e row true
  covers : ∀ predicate, plan.intoPredicate = some predicate → ∀ row : planner.StoredRow,
    e.eval (planner.semantics member) row = some true → planner.api.selects predicate row = true
  /-- The complement of an exact plan selects the FALSE rows, and rewriting a literal
  that is out of range never yields one. -/
  complement : ∀ predicate, plan = .exact predicate →
    (∀ row : planner.StoredRow, (planner.api.selects (planner.api.not predicate) row = true ↔
      e.eval (planner.semantics member) row = some false) ↔
        planner.FilterAgrees member e row false) ∧
    ∀ leaf ∈ e.plannedLeaves, isClipped leaf = false
  /-- A file with every column is read as SQL reads it. -/
  complete : ∀ row : planner.StoredRow, (∀ id, row.1.present id = true) → ∀ value,
    planner.FilterAgrees member e row value

/-- The plan of a runtime predicate is sound exactly where the row filter's reading of
columns that the data file lacks makes no difference. -/
theorem plan_selects (laws : IcebergLiteLaws planner) (e : RuntimePruningPredicate)
    (plan : PredicatePlan Predicate) (h : planner.plan e = .ok plan) :
    PlanSelects planner member e plan := by
  have hm : planner.Marks (e.eval (planner.filterSemantics member)) plan :=
    planWith_meets (adapter_laws laws) e
      (fun leaf hl => leaf_marks laws leaf (plannedLeaves_isLeaf e leaf hl)) plan h
  have hiff {p : Prop} {row : planner.StoredRow} {value : Bool}
      (hp : p ↔ e.eval (planner.filterSemantics member) row = some value) :
      (p ↔ e.eval (planner.semantics member) row = some value) ↔
        planner.FilterAgrees member e row value := by
    constructor
    · exact fun hi hf => hi.mp (hp.mpr hf)
    · exact fun ha => ⟨fun hr => ha (hp.mp hr), fun hs => hp.mpr (semantics_refines e _ hs)⟩
  refine ⟨?_, ?_, ?_, fun row hp value => filterSemantics_refines hp e value⟩
  · rintro predicate (rfl | rfl) row
    · exact hiff (hm.1 row)
    · exact hiff (hm row)
  · intro predicate hp row hs
    exact hm.covers hp row (semantics_refines e _ hs)
  · rintro predicate rfl
    constructor
    · intro row
      exact hiff ((hm.2 row).trans Truth.not_eq_true)
    · intro leaf hl
      rw [eq_false_iff]
      intro hc
      cases leaf with
      | comparison operator left right =>
        obtain ⟨l, he⟩ := planWith_exact_comparisons e predicate h operator left right hl
        exact isClipped_not_exact hc l he
      | _ => cases hc

end Trees

end IcebergPredicatePlanner

/-! ## One scan -/

/-- An `int2` and an `int4` column, and a nullable decimal. -/
def readingsPlanner : IcebergPredicatePlanner where
  arrowSchema := [⟨"station", .int16, none⟩, ⟨"level", .int32, none⟩,
    ⟨"price", .decimal128 5 2, none⟩]
  fieldIds := [1, 2, 3]
  api := foldingApi
  decimalFromUnscaled coefficient precision scale := .ok (.decimal coefficient precision scale)

lemma readingsPlanner_laws : IcebergLiteLaws readingsPlanner where
  toLaws := foldingApi_laws
  decimal _ _ _ _ h := (Except.ok.inj h).symm

/-- `5000000000 > level AND NOT (station = 7 OR price < 1.50)`: the literal above
every `int4` leaves a null test, which may not be complemented again. -/
def readingsFilter : RuntimePruningPredicate :=
  .and [.comparison .greaterThan (.value (.int64 5000000000)) (.widenedIntegerColumn 1 .toInt64),
    .not (.or [.comparison .equal (.widenedIntegerColumn 0 .toInt32) (.value (.int32 7)),
      .comparison .lessThan (.column 2) (.value (.decimal128 150 5 2))])]

theorem readingsFilter_selects :
    IcebergPredicatePlanner.PlanSelects readingsPlanner (fun _ _ _ _ => none) readingsFilter
      (.exactNoComplement (.and (.unary .notNull ⟨"level", 2⟩)
        (.not (.or (.binary .eq ⟨"station", 1⟩ (.int 7))
          (.binary .lessThan ⟨"price", 3⟩ (.decimal 150 5 2)))))) ∧
      IcebergPredicatePlanner.PlanSelects readingsPlanner (fun _ _ _ _ => none)
        (.not readingsFilter) .unsupported :=
  ⟨plan_selects readingsPlanner_laws readingsFilter _ rfl,
    plan_selects readingsPlanner_laws (.not readingsFilter) _ rfl⟩

/-- `NOT level > 5`. -/
def atMostFive : RuntimePruningPredicate :=
  .not (.comparison .greaterThan (.column 1) (.value (.int32 5)))

/-- A row of a file written before `level` was added. -/
def earlierReading : Row := ⟨fun _ => none, (· != 2), fun _ _ => rfl⟩

/-- The plan is exact, and the row filter passes a row on which the predicate is NULL. -/
theorem atMostFive_selects_earlierReading :
    earlierReading.present 2 = false ∧
    ∀ api : PredicateApi, api.Laws → let planner := { readingsPlanner with api }
      ∃ predicate, ∃ row : planner.StoredRow, row = earlierReading ∧
        planner.plan atMostFive = .ok (.exact predicate) ∧ api.selects predicate row = true ∧
        ∀ member, atMostFive.eval (planner.semantics member) row = none := by
  refine ⟨rfl, fun api laws => ⟨_, ⟨earlierReading, nofun⟩, rfl, rfl, ?_, fun _ => rfl⟩⟩
  exact (laws.not_binary _ _ _ _ _ rfl).trans (laws.binary_absent _ _ _ _ rfl)

end LagoDB.RuntimePredicates
