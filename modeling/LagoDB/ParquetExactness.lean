import LagoDB.ParquetFilters

/-!
# Parquet filters select exactly, row groups soundly

A bound tree has no NOT left, so what matters of it on a row is whether it is
TRUE. Binding makes that the question whether the SQL expression is TRUE, or FALSE
under a negation. The row filter answers the question exactly. The statistics of a
row group answer it for all of its rows at once, and only ever say yes too often.
-/
namespace LagoDB.Parquet

open SqlLogic NumericCodec Pushdown ExceptLoop Iceberg List BoundNode ArrowValue Truth PredicateExpr
open ExecutableNode PlannedNode ValueType
open RuntimePredicates (DataType ArrowField)

/-! ## Rows of a file -/

/-- The cells an Arrow type allows. -/
def ArrowValue.Fits (value : ArrowValue) : DataType → Prop
  | .boolean => ∃ stored, value = .boolean stored
  | .int16 => ∃ stored, value = .int16 stored
  | .int32 => ∃ stored, value = .int32 stored
  | .int64 => ∃ stored, value = .int64 stored
  | .utf8 => ∃ bytes, value = .utf8 bytes
  | .largeUtf8 => ∃ bytes, value = .largeUtf8 bytes
  | .decimal128 precision scale => ∃ unscaled, value = .decimal128 unscaled precision scale
  | _ => ∃ stored, value = .other stored

namespace Schema

def Stores (schema : Schema) (row : Row) : Prop :=
  ∀ (root : ℕ) (value : ArrowValue), row[root]? = some (some value) →
    value.Fits (fieldType schema root)

def cell (schema : Schema) (column : PlannedColumn) (row : Row) : Option ArrowValue :=
  (schema.indexOf column.name).bind fun root => (row[root]?).join

def columnType (schema : Schema) (column : PlannedColumn) : DataType :=
  ((schema.indexOf column.name).map (fieldType schema)).getD .other

lemma cell_root {sch : Schema} {l : PlannedColumn} {root : ℕ} (h : sch.columnRoot l = .ok root)
    (row : Row) : sch.cell l row = (row[root]?).join ∧ sch.columnType l = fieldType sch root := by
  unfold columnRoot at h
  split at h
  next f hf =>
    cases h
    simp [cell, columnType, hf]
  next => cases h

lemma Stores.fits {sch : Schema} {row : Row} (h : sch.Stores row) {l : PlannedColumn}
    {v : ArrowValue} (hc : sch.cell l row = some v) : v.Fits (sch.columnType l) := by
  obtain ⟨r, hr, hv⟩ := Option.bind_eq_some_iff.mp hc
  have ht : sch.columnType l = fieldType sch r := by simp [columnType, hr]
  rw [ht]
  exact h r v (Option.join_eq_some_iff.mp hv)

end Schema

/-! ## Scalars -/

def BoundValue.toSql : BoundValue → SqlValue
  | .bool value => .boolean value
  | .i16 value | .i32 value | .i64 value => .integral value
  | .string bytes => .text bytes
  | .decimal128 coefficient semantics => .number (.finite (coefficient / 10 ^ semantics.scale))

lemma scalar_order {v : BoundValue} {d : DataType} {scalar cell : ArrowValue}
    (h : v.scalar d = .ok scalar) (hf : cell.Fits d) :
    ∃ o, cell.order scalar = some o ∧ cell.read.order byteOrder v.toSql = some o := by
  cases v with
  | bool v | i16 v | i32 v | i64 v =>
    cases d <;> try cases h
    obtain ⟨s, rfl⟩ := hf
    exact ⟨_, rfl, rfl⟩
  | string b =>
    cases d <;> try cases h
    · obtain ⟨s, rfl⟩ := hf
      exact ⟨_, rfl, rfl⟩
    · obtain ⟨s, rfl⟩ := hf
      exact ⟨_, rfl, rfl⟩
  | decimal128 c e =>
    cases d with
    | decimal128 p sc =>
      rw [BoundValue.scalar] at h
      split_ifs at h with hs
      cases h
      obtain ⟨u, rfl⟩ := hf
      refine ⟨compare u c, if_pos ⟨rfl, rfl⟩, ?_⟩
      rw [ArrowValue.read, BoundValue.toSql, SqlValue.order, NumericValue.order, hs.2,
        zpow_natCast, compare_scaled]
    | _ => cases h

inductive Decodes : ValueType → PgDatum → DecodedValue → Prop where
  | scalar {valueType : ValueType} {datum : PgDatum} {value : BoundValue}
      (hsql : datum.toSql = value.toSql)
      (htext : valueType ≠ .string → ∀ bytes, datum.toSql ≠ .text bytes) :
    Decodes valueType datum (.scalar value)
  | special {semantics : Decimal128NumericCodec} {numeric : PgNumeric}
      {special : Decimal128ComparisonValue}
      (hencode : semantics.encodeComparisonDatum numeric = .ok special)
      (hspecial : ∀ coefficient, special ≠ .finite coefficient) :
    Decodes (.decimal128 semantics) (.numeric numeric) (.outsideFinite special)

lemma decode_decodes {t : ValueType} {i : TypeOid} {d : RuntimeDatum}
    {decoded : DecodedValue} (h : t.decode i d = .ok decoded) :
    ∃ sc, d = .scalar sc ∧ Decodes t sc decoded := by
  unfold decode at h
  split_ifs at h
  split at h
  iterate 4
    · cases h
      exact ⟨_, rfl, .scalar rfl fun _ b hs => by cases hs⟩
  · cases h
    exact ⟨_, rfl, .scalar rfl fun hst => absurd rfl hst⟩
  · next s n =>
    split at h
    next v he =>
      cases h
      refine ⟨_, rfl, ?_⟩
      cases v with
      | finite c =>
        refine .scalar ?_ fun _ b hs => by cases hs
        rw [PgDatum.toSql, BoundValue.toSql, encodeComparisonDatum_finite he]
      | _ => exact .special he fun _ hs => by cases hs
    next => cases h
  · cases h

/-! ## Bound trees -/

namespace BoundNode

mutual

/-- Whether the tree is TRUE on a row. -/
def holds (schema : Schema) (row : Row) : BoundNode → Bool
  | .comparison operator column value =>
    match schema.cell column row, value.scalar (schema.columnType column) with
    | some cell, .ok scalar => (cell.order scalar).any operator.kind.holds
    | _, _ => false
  | .isNull column => (schema.cell column row).isNone
  | .isNotNull column => (schema.cell column row).isSome
  | .and children => holdsAll schema row children
  | .or children => holdsAny schema row children
  | .neverTrue => false

def holdsAll (schema : Schema) (row : Row) : List BoundNode → Bool
  | [] => true
  | child :: rest => holds schema row child && holdsAll schema row rest

def holdsAny (schema : Schema) (row : Row) : List BoundNode → Bool
  | [] => false
  | child :: rest => holds schema row child || holdsAny schema row rest

end

variable {children : List BoundNode} {schema : Schema}

lemma holdsAll_iff {row : Row} :
    holdsAll schema row children = true ↔ ∀ c ∈ children, c.holds schema row = true := by
  induction children with
  | nil => simp [holdsAll]
  | cons c rest ih => rw [holdsAll, Bool.and_eq_true, ih, forall_mem_cons]

lemma holdsAny_iff {row : Row} :
    holdsAny schema row children = true ↔ ∃ c ∈ children, c.holds schema row = true := by
  induction children with
  | nil => simp [holdsAny]
  | cons c rest ih => rw [holdsAny, Bool.or_eq_true, ih, exists_mem_cons_iff]

def isLeaf : BoundNode → Bool
  | .and _ | .or _ => false
  | _ => true

@[elab_as_elim]
lemma tree_induction {motive : BoundNode → Prop} (node : BoundNode)
    (leaf : ∀ node, node.isLeaf = true → motive node)
    (and : ∀ children, (∀ c ∈ children, motive c) → motive (.and children))
    (or : ∀ children, (∀ c ∈ children, motive c) → motive (.or children)) : motive node :=
  @BoundNode.rec motive (fun children => ∀ c ∈ children, motive c)
    (fun _ _ _ => leaf _ rfl) (fun _ => leaf _ rfl) (fun _ => leaf _ rfl) and or (leaf _ rfl)
    (fun _ h => nomatch h) (fun _ _ hh hr => forall_mem_cons.mpr ⟨hh, hr⟩) node

mutual

/-- Literals can be compared with their columns. -/
def Fits (schema : Schema) : BoundNode → Prop
  | .comparison _ column value => ∃ scalar, value.scalar (schema.columnType column) = .ok scalar
  | .and children | .or children => FitsAll schema children
  | _ => True

def FitsAll (schema : Schema) : List BoundNode → Prop
  | [] => True
  | child :: rest => Fits schema child ∧ FitsAll schema rest

end

lemma fitsAll_iff : FitsAll schema children ↔ ∀ c ∈ children, c.Fits schema := by
  induction children with
  | nil => simp [FitsAll]
  | cons c rest ih => rw [FitsAll, ih, forall_mem_cons]

mutual

def NonEmpty : BoundNode → Prop
  | .and children | .or children => children ≠ [] ∧ NonEmptyAll children
  | _ => True

def NonEmptyAll : List BoundNode → Prop
  | [] => True
  | child :: rest => NonEmpty child ∧ NonEmptyAll rest

end

lemma nonEmptyAll_iff : NonEmptyAll children ↔ ∀ c ∈ children, c.NonEmpty := by
  induction children with
  | nil => simp [NonEmptyAll]
  | cons c rest ih => rw [NonEmptyAll, ih, forall_mem_cons]

lemma nonEmpty_of_leaf {node : BoundNode} (h : node.isLeaf = true) : node.NonEmpty := by
  cases node with
  | and children | or children => cases h
  | _ => trivial

lemma bindSchemaAll_eq (sch : Schema) (roots : List ℕ) (cs : List BoundNode) :
    bindSchemaAll sch roots cs = cs.mapM (bindSchema sch roots) := by
  induction cs with
  | nil => rfl
  | cons c rest ih => rw [bindSchemaAll, ih, mapM_cons]

lemma columnIndex_eq {roots : List ℕ} {l : PlannedColumn} {root b : ℕ}
    (h : columnIndex schema roots l = .ok (root, b)) :
    schema.columnRoot l = .ok root ∧ roots[b]? = some root := by
  obtain ⟨f, hf, hr⟩ := bind_eq_ok h
  split at hr
  next i hi =>
    cases hr
    refine ⟨hf, ?_⟩
    obtain ⟨hl, hro, -⟩ := List.findIdx?_eq_some_iff_getElem.mp hi
    rw [List.getElem?_eq_getElem hl]
    exact congrArg some (beq_iff_eq.mp hro)
  next => cases hr

lemma bindSchema_fits {roots : List ℕ} (node : BoundNode)
    {e : ExecutableNode} (h : node.bindSchema schema roots = .ok e) : node.Fits schema := by
  induction node using tree_induction generalizing e with
  | leaf node hl =>
    cases node with
    | comparison operator column v =>
      obtain ⟨⟨r, b⟩, hi, hr⟩ := bind_eq_ok h
      obtain ⟨s, hs, -⟩ := bind_eq_ok hr
      have hro := (columnIndex_eq hi).1
      refine ⟨s, ?_⟩
      rw [(Schema.cell_root hro []).2]
      exact hs
    | and children | or children => cases hl
    | _ => trivial
  | and children ih | or children ih =>
    obtain ⟨es, he, -⟩ := map_eq_ok h
    rw [bindSchemaAll_eq] at he
    refine fitsAll_iff.mpr fun c hch => ?_
    obtain ⟨o, hc⟩ := mapM_ok_of_mem he hch
    exact ih c hch hc

end BoundNode

/-! ## The row filter -/

attribute [local simp] holds

section Evaluate

variable {sch : Schema} {row : Row} {roots : List ℕ}

/-- What the projected batch holds of a row. -/
def projected (roots : List ℕ) (row : Row) : Row := roots.map fun root => (row[root]?).join

/-- The executable tree answers on the row, and with TRUE where the bound tree is. -/
def Answers (kernel : ArrowKernel) (roots : List ℕ) (schema : Schema) (row : Row) (node : BoundNode)
    (executable : ExecutableNode) : Prop :=
  ∃ truth, executable.evaluate kernel (projected roots row) = .ok truth ∧
    (truth = some true ↔ node.holds schema row = true)

variable {kernel : ArrowKernel} {l : PlannedColumn}

lemma batchColumn_eq {root b : ℕ} (h : columnIndex sch roots l = .ok (root, b)) (row : Row) :
    batchColumn (projected roots row) b = .ok (sch.cell l row) ∧
      sch.columnType l = fieldType sch root := by
  obtain ⟨hr, hb⟩ := columnIndex_eq h
  obtain ⟨hc, ht⟩ := Schema.cell_root hr row
  refine ⟨?_, ht⟩
  simp [batchColumn, projected, hb, hc]

lemma comparison_answers (hk : kernel.Laws) (hst : sch.Stores row) {op : ComparisonOperator}
    {v : BoundValue} {e : ExecutableNode} (h : (comparison op l v).bindSchema sch roots = .ok e) :
    Answers kernel roots sch row (.comparison op l v) e := by
  obtain ⟨⟨r, b⟩, hi, hr⟩ := bind_eq_ok h
  obtain ⟨s, hs, hsa⟩ := bind_eq_ok hr
  cases hsa
  obtain ⟨hb, ht⟩ := batchColumn_eq hi row
  rw [← ht] at hs
  unfold Answers
  rw [evaluate, bind_ok hb, holds, hs]
  cases hc : sch.cell l row with
  | none => exact ⟨none, rfl, by simp⟩
  | some c =>
    obtain ⟨o, ho, -⟩ := scalar_order hs (hst.fits hc)
    refine ⟨some (op.kind.holds o), ?_, ?_⟩
    · simp [ComparisonOperator.evaluate, hk _ _ _ ho]
    · simp [ho]

lemma nullTest_answers {i : ℕ × ℕ} (h : columnIndex sch roots l = .ok i) :
    Answers kernel roots sch row (.isNull l) (.isNull i.2) ∧
      Answers kernel roots sch row (.isNotNull l) (.isNotNull i.2) := by
  have hb := (batchColumn_eq h row).1
  unfold Answers
  rw [evaluate, evaluate, hb]
  exact ⟨⟨_, rfl, by simp⟩, ⟨_, rfl, by simp⟩⟩

variable {es : List ExecutableNode} {cs : List BoundNode}

lemma evaluateChildren_and (h : List.Forall₂ (Answers kernel roots sch row) cs es) (r : Truth) :
    ∃ t, evaluateChildren kernel (projected roots row) and r es = .ok t ∧
      (t = some true ↔ r = some true ∧ ∀ c ∈ cs, c.holds sch row = true) := by
  induction h generalizing r with
  | nil => exact ⟨r, rfl, by simp⟩
  | cons hhe _ ih =>
    obtain ⟨a, ha, hh⟩ := hhe
    obtain ⟨t, ht, hr⟩ := ih (and r a)
    refine ⟨t, ?_, ?_⟩
    · rw [evaluateChildren, bind_ok ha]
      exact ht
    · rw [hr, and_eq_true, hh, forall_mem_cons, and_assoc]

lemma evaluateChildren_or (h : List.Forall₂ (Answers kernel roots sch row) cs es) (r : Truth) :
    ∃ t, evaluateChildren kernel (projected roots row) or r es = .ok t ∧
      (t = some true ↔ r = some true ∨ ∃ c ∈ cs, c.holds sch row = true) := by
  induction h generalizing r with
  | nil => exact ⟨r, rfl, by simp⟩
  | cons hhe _ ih =>
    obtain ⟨a, ha, hh⟩ := hhe
    obtain ⟨t, ht, hr⟩ := ih (or r a)
    refine ⟨t, ?_, ?_⟩
    · rw [evaluateChildren, bind_ok ha]
      exact ht
    · rw [hr, or_eq_true, hh, exists_mem_cons_iff, or_assoc]

lemma and_answers (hne : cs ≠ []) (h : List.Forall₂ (Answers kernel roots sch row) cs es) :
    Answers kernel roots sch row (.and cs) (.and es) := by
  cases h with
  | nil => exact absurd rfl hne
  | cons hhe hr =>
    obtain ⟨a, ha, hh⟩ := hhe
    obtain ⟨t, ht, hi⟩ := evaluateChildren_and hr a
    refine ⟨t, ?_, ?_⟩
    · rw [evaluate, bind_ok ha]
      exact ht
    · rw [hi, hh, holds, holdsAll_iff, forall_mem_cons]

lemma or_answers (hne : cs ≠ []) (h : List.Forall₂ (Answers kernel roots sch row) cs es) :
    Answers kernel roots sch row (.or cs) (.or es) := by
  cases h with
  | nil => exact absurd rfl hne
  | cons hhe hr =>
    obtain ⟨a, ha, hh⟩ := hhe
    obtain ⟨t, ht, hi⟩ := evaluateChildren_or hr a
    refine ⟨t, ?_, ?_⟩
    · rw [evaluate, bind_ok ha]
      exact ht
    · rw [hi, hh, holds, holdsAny_iff, exists_mem_cons_iff]

lemma childrenAnswer (he : ∀ c ∈ cs, ∀ e, c.bindSchema sch roots = .ok e →
      Answers kernel roots sch row c e) (h : bindSchemaAll sch roots cs = .ok es) :
    List.Forall₂ (Answers kernel roots sch row) cs es := by
  rw [bindSchemaAll_eq] at h
  have hb := (forall₂_and_left _ _).mpr ⟨he, mapM_forall₂ h⟩
  exact hb.imp fun c e hc => hc.1 e hc.2

lemma bindSchema_answers (hk : kernel.Laws) (hs : sch.Stores row) (node : BoundNode)
    {e : ExecutableNode} (hne : node.NonEmpty) (h : node.bindSchema sch roots = .ok e) :
    Answers kernel roots sch row node e := by
  induction node using tree_induction generalizing e with
  | leaf node hl =>
    cases node with
    | comparison operator l v => exact comparison_answers hk hs h
    | isNull l =>
      obtain ⟨i, hi, rfl⟩ := map_eq_ok h
      exact (nullTest_answers hi).1
    | isNotNull l =>
      obtain ⟨i, hi, rfl⟩ := map_eq_ok h
      exact (nullTest_answers hi).2
    | and cs | or cs => cases hl
    | neverTrue =>
      cases h
      exact ⟨none, rfl, by simp⟩
  | and cs ih =>
    obtain ⟨es, he, rfl⟩ := map_eq_ok h
    refine and_answers hne.1 (childrenAnswer ?_ he)
    exact fun c hc _ => ih c hc (nonEmptyAll_iff.mp hne.2 c hc)
  | or cs ih =>
    obtain ⟨es, he, rfl⟩ := map_eq_ok h
    refine or_answers hne.1 (childrenAnswer ?_ he)
    exact fun c hc _ => ih c hc (nonEmptyAll_iff.mp hne.2 c hc)

end Evaluate

/-! ## Binding -/

namespace ParquetFilterPlanner

variable (planner p : ParquetFilterPlanner) (schema : Schema)

def sql (values : RuntimeValueBindings) (row : Row) : ScalarExpr → Option SqlValue
  | .column column =>
    ((planner.column column).bind fun planned => schema.cell planned row).map read
  | .value slot => (values slot).toSql

/-- What PostgreSQL computes of null tests and comparisons; the meaning of leaves
that are never planned is left to `rest`. -/
def semantics (rest : ScalarSemantics ScalarExpr PgComparisonOp Row)
    (values : RuntimeValueBindings) : ScalarSemantics ScalarExpr PgComparisonOp Row :=
  { rest with
    isNull := fun value row => (planner.sql schema values row value).isNone
    compare := fun operator left right row =>
      planner.catalog.compare operator (planner.sql schema values row left)
        (planner.sql schema values row right) }

/-- The typmod the decoder enforces. -/
def decodedTypmod : DataType → ℤ
  | .decimal128 precision scale => numericTypmod precision (scale % 2048).toNat
  | _ => -1

/-- The storage requirement of `check_read_field` on a column with a typmod: the
file has it as a decimal of that precision and scale. -/
def Declared (column : ColumnRef) : Prop :=
  ∀ planned, planner.column column = some planned → column.declaredType.typeOid = .numeric →
    0 ≤ column.declaredType.typmod →
      decodedTypmod (schema.columnType planned) = column.declaredType.typmod

mutual

/-- Every compared column is readable as its declared type. -/
def Readable : PredicateExpr ScalarExpr PgComparisonOp → Prop
  | .comparison _ (.column column) _ => planner.Declared schema column
  | .comparison _ _ (.column column) => planner.Declared schema column
  | .and children | .or children => ReadableAll children
  | .not child => Readable child
  | _ => True

def ReadableAll : List (PredicateExpr ScalarExpr PgComparisonOp) → Prop
  | [] => True
  | child :: rest => Readable child ∧ ReadableAll rest

end

end ParquetFilterPlanner

section Comparisons

variable {c : Catalog} {l : ColumnRef} {spec : RuntimeValueSpec} {op : PgComparisonOp} {utf8 : Bool}
  {t : ValueType} {cmp : ComparisonOperator}

lemma forComparison_eq (h : forComparison c l spec op utf8 = some (t, cmp)) :
    ∃ s, c.forOperator op.opno = some s ∧ cmp = IcebergFilterPlanner.plannedOperator s.kind ∧
      tabulated l spec cmp = some t ∧
      (t = .string → PgPredicatePushdownPolicy.forComparison c op s.kind = true) := by
  obtain ⟨f, hf, hr⟩ := Option.bind_eq_some_iff.mp h
  obtain ⟨tabulated, ht, ha⟩ := Option.bind_eq_some_iff.mp hr
  obtain ⟨s, hs, hal⟩ := Option.bind_eq_some_iff.mp hf
  split_ifs at ha with hadm
  split_ifs at hal
  cases hal
  cases ha
  refine ⟨s, hs, rfl, ht, ?_⟩
  rintro rfl
  rw [plannedOperator_kind] at hadm
  exact (Bool.and_eq_true _ _ ▸ hadm).2

lemma compare_bytes (laws : c.Laws) {s : PgComparisonSignature}
    (hs : c.forOperator op.opno = some s)
    (hst : t = .string → PgPredicatePushdownPolicy.forComparison c op s.kind = true)
    {slot : Option SqlValue} (hsl : t ≠ .string → ∀ bs, slot ≠ some (.text bs))
    (o : Option SqlValue) :
    c.compare op o slot = s.kind.truth byteOrder o slot ∧
      c.compare op slot o = s.kind.truth byteOrder slot o := by
  by_cases ht : t = .string
  · have hb := hst ht
    exact ⟨compare_text laws hs hb _ _, compare_text laws hs hb _ _⟩
  · exact (compare_plain hs (hsl ht) o).symm

lemma decimal_columnType {p : ParquetFilterPlanner} {sch : Schema} {n : PlannedColumn}
    {m : Decimal128NumericCodec} (hd : p.Declared sch l) (hc : p.column l = some n)
    (h : tabulated l spec cmp = some (.decimal128 m)) :
    ∃ r sc, sch.columnType n = .decimal128 r sc := by
  have hn : l.declaredType.typeOid = .numeric ∧ 0 ≤ l.declaredType.typmod := by
    unfold tabulated at h
    split at h
    · split_ifs at h
      cases h
    · cases h
    · cases h
    · cases h
    · next hd' _ _ =>
      obtain ⟨c, hco, -⟩ := Option.map_eq_some_iff.mp h
      obtain ⟨d, hs, -⟩ := Option.bind_eq_some_iff.mp hco
      unfold decimalForType at hs
      split_ifs at hs
      obtain ⟨s, hp, -⟩ := Option.bind_eq_some_iff.mp hs
      unfold numericPrecisionScale at hp
      split_ifs at hp with ht
      exact ⟨hd', by omega⟩
    · split_ifs at h
      cases h
  have ht := hd n hc hn.1 hn.2
  unfold ParquetFilterPlanner.decodedTypmod at ht
  split at ht
  next r sc hty => exact ⟨r, sc, hty⟩
  next => omega

end Comparisons

attribute [local simp] PgComparisonKind.truth

section Leaves

variable {schema : Schema} {row : Row} {operator : ComparisonOperator} {column : PlannedColumn}

lemma truth_some (kind : PgComparisonKind) {a b : SqlValue} {o : Ordering}
    (h : a.order byteOrder b = some o) (w : Bool) :
    kind.truth byteOrder (some a) (some b) = some w ↔ kind.holds o = w := by
  simp [h]

lemma signed_holds (op : ComparisonOperator) (neg : Bool) (o : Ordering) :
    (if neg then op.negated else op).kind.holds o = true ↔ op.kind.holds o = !neg := by
  cases neg <;> simp [kind_negated, PgComparisonKind.negated_holds]

variable {neg : Bool}

lemma comparison_holds (hst : schema.Stores row) {v : BoundValue}
    (hf : (comparison (if neg then operator.negated else operator) column v).Fits schema) :
    (comparison (if neg then operator.negated else operator) column v).holds schema row = true ↔
      operator.kind.truth byteOrder ((schema.cell column row).map read)
        (some v.toSql) = some !neg := by
  obtain ⟨s, hs⟩ := hf
  rw [holds, hs]
  cases hc : schema.cell column row with
  | none => simp
  | some c =>
    obtain ⟨o, ho, hsq⟩ := scalar_order hs (hst.fits hc)
    rw [Option.map_some, truth_some _ hsq]
    simp only [ho, Option.any_some]
    exact signed_holds operator neg o

variable {b : BoundNode}

/-- Infinities and NaN select every stored value or none. -/
lemma special_holds (hst : schema.Stores row) {m : Decimal128NumericCodec}
    {n : PgNumeric} {special : Decimal128ComparisonValue} {p : ℕ} {s : ℤ}
    (ht : schema.columnType column = .decimal128 p s)
    (he : m.encodeComparisonDatum n = .ok special) (hs : ∀ c, special ≠ .finite c)
    (h : bindDecoded (if neg then operator.negated else operator) column
      (.outsideFinite special) = .ok b) :
    b.holds schema row = true ↔ operator.kind.truth byteOrder ((schema.cell column row).map read)
        (some (.number n.value)) = some !neg := by
  cases hc : schema.cell column row with
  | none =>
    have hf : b.holds schema row = false := by
      unfold bindDecoded at h
      dsimp only at h
      split at h <;> cases h <;> simp [hc]
    simp [hf]
  | some cell =>
    obtain ⟨u, rfl⟩ : ∃ u, cell = .decimal128 u p s := by
      simpa [ArrowValue.Fits, ht] using hst.fits hc
    obtain ⟨o, ho, ha⟩ := special_order (u / 10 ^ s) he hs
    rw [Option.map_some, ArrowValue.read, truth_some _ ho, ← signed_holds]
    unfold bindDecoded at h
    simp only [ha] at h
    cases hh : (if neg then operator.negated else operator).kind.holds o with
    | true =>
      rw [hh] at h
      cases h
      simp [hc]
    | false =>
      rw [hh] at h
      cases h
      simp

section

variable {t : ValueType} {v : RuntimeValue}
  (h : PlannedNode.bindComparison operator column t v neg = .ok b)

include h

lemma bindComparison_isLeaf : b.isLeaf = true := by
  unfold bindComparison at h
  split at h
  next =>
    cases h
    rfl
  next =>
    obtain ⟨d, -, hb⟩ := bind_eq_ok h
    unfold bindDecoded at hb
    split at hb
    · cases hb
      rfl
    · split at hb <;> cases hb <;> rfl

lemma bindComparison_holds (hst : schema.Stores row) (hd : ∀ m, t = .decimal128 m →
      ∃ p s, schema.columnType column = .decimal128 p s) (hf : b.Fits schema) :
    (b.holds schema row = true ↔
      operator.kind.truth byteOrder ((schema.cell column row).map read) v.toSql =
        some !neg) ∧ (t ≠ .string → ∀ bs, v.toSql ≠ some (.text bs)) := by
  unfold bindComparison at h
  split at h
  next hn =>
    cases h
    have hsl : v.toSql = none := by simp [RuntimeValue.toSql, hn]
    refine ⟨?_, fun _ bs hs => ?_⟩
    · cases schema.cell column row <;> simp [hsl]
    · rw [hsl] at hs
      cases hs
  next a hda =>
    obtain ⟨d, hde, hb⟩ := bind_eq_ok h
    obtain ⟨scalar, rfl, hdec⟩ := decode_decodes hde
    have hsl : v.toSql = some scalar.toSql := by simp [RuntimeValue.toSql, hda]
    rw [hsl]
    cases hdec with
    | scalar hsq ht =>
      cases hb
      refine ⟨?_, fun hstr bs hs => ht hstr bs (Option.some.inj hs)⟩
      rw [hsq]
      exact comparison_holds hst hf
    | special he hsp =>
      obtain ⟨p, s, hty⟩ := hd _ rfl
      refine ⟨special_holds hst hty he hsp hb, fun _ bs hs => ?_⟩
      cases hs

end

end Leaves

/-! ## Trees -/

namespace ParquetFilterPlanner

variable {p : ParquetFilterPlanner} {schema : Schema} {row : Row}
  {rest : ScalarSemantics ScalarExpr PgComparisonOp Row} {vs : RuntimeValueBindings}
  {ss : ℕ → RuntimeValueSpec}

/-- The bound tree is TRUE where the expression has the wanted value. -/
def Selects (planner : ParquetFilterPlanner) (schema : Schema) (row : Row)
    (rest : ScalarSemantics ScalarExpr PgComparisonOp Row) (values : RuntimeValueBindings)
    (wanted : Bool) (e : PredicateExpr ScalarExpr PgComparisonOp) (bound : BoundNode) : Prop :=
  bound.NonEmpty ∧ (bound.holds schema row = true ↔
    e.eval (planner.semantics schema rest values) row = some wanted)

lemma columnComparison_selects (laws : p.catalog.Laws) (hst : schema.Stores row)
    {operator : PgComparisonOp} {column : ColumnRef} {v : ℕ} {m neg : Bool}
    {node : PlannedNode} {b : BoundNode} (hd : p.Declared schema column)
    (hpl : p.columnComparison ss operator column v m = some node)
    (hb : node.bindNegated vs neg = .ok b) (hf : b.Fits schema) :
    p.Selects schema row rest vs (!neg) (if m then .comparison operator (.value v) (.column column)
        else .comparison operator (.column column) (.value v)) b := by
  obtain ⟨⟨t, c⟩, hc, hp⟩ := Option.bind_eq_some_iff.mp hpl
  obtain ⟨planned, hco, hn⟩ := Option.bind_eq_some_iff.mp hp
  cases hn
  obtain ⟨signature, hs, rfl, ht, hstr⟩ := forComparison_eq hc
  have hde : ∀ semantics, t = .decimal128 semantics →
      ∃ precision s, schema.columnType planned = .decimal128 precision s := by
    rintro semantics rfl
    exact decimal_columnType hd hco ht
  obtain ⟨hh, hsl⟩ := bindComparison_holds hb hst hde hf
  obtain ⟨hl, hr⟩ := compare_bytes laws hs hstr hsl ((schema.cell planned row).map read)
  have hsq : p.sql schema vs row (.column column) = (schema.cell planned row).map read := by
    simp [sql, hco]
  refine ⟨nonEmpty_of_leaf (bindComparison_isLeaf hb), ?_⟩
  rw [hh]
  cases m with
  | false =>
    simp only [Bool.false_eq_true, if_false, eval, semantics, hsq, plannedOperator_kind]
    rw [sql, hl]
  | true =>
    simp only [if_true, eval, semantics, hsq, truth_mirrored]
    rw [sql, hr]

lemma nullTest_selects {l : ColumnRef} {n : PlannedColumn} (neg : Bool) (hc : p.column l = some n) :
    p.Selects schema row rest vs (!neg) (.isNull (.column l))
        (if neg then .isNotNull n else .isNull n) ∧
      p.Selects schema row rest vs (!neg) (.isNotNull (.column l))
        (if neg then .isNull n else .isNotNull n) := by
  have hs : p.sql schema vs row (.column l) = (schema.cell n row).map read := by
    simp [sql, hc]
  cases neg <;> cases hce : schema.cell n row <;>
    simp [Selects, eval, semantics, hs, BoundNode.NonEmpty, hce]

section Connectives

variable {w : Bool} {cs : List (PredicateExpr ScalarExpr PgComparisonOp)} {bs : List BoundNode}

section

variable (h : List.Forall₂ (p.Selects schema row rest vs w) cs bs)

include h

lemma nonEmptyAll_of_selects : BoundNode.NonEmptyAll bs := by
  induction h with
  | nil => trivial
  | cons hh _ ih => exact ⟨hh.1, ih⟩

lemma and_selects {e : PredicateExpr ScalarExpr PgComparisonOp} (hne : bs ≠ [])
    (he : e.eval (p.semantics schema rest vs) row = some w ↔
      ∀ v ∈ evalAll (p.semantics schema rest vs) cs row, v = some w) :
    p.Selects schema row rest vs w e (.and bs) := by
  refine ⟨⟨hne, nonEmptyAll_of_selects h⟩, ?_⟩
  rw [he, holds]
  clear hne he
  induction h with
  | nil => simp [holdsAll, evalAll]
  | cons hh _ ih => rw [holdsAll, Bool.and_eq_true, evalAll, forall_mem_cons, ih, hh.2]

lemma or_selects {e : PredicateExpr ScalarExpr PgComparisonOp} (hne : bs ≠ [])
    (he : e.eval (p.semantics schema rest vs) row = some w ↔
      ∃ v ∈ evalAll (p.semantics schema rest vs) cs row, v = some w) :
    p.Selects schema row rest vs w e (.or bs) := by
  refine ⟨⟨hne, nonEmptyAll_of_selects h⟩, ?_⟩
  rw [he, holds]
  clear hne he
  induction h with
  | nil => simp [holdsAny, evalAll]
  | cons hh _ ih => rw [holdsAny, Bool.or_eq_true, evalAll, exists_mem_cons_iff, ih, hh.2]

end

end Connectives

lemma bounds_ne_nil {p : List PlannedNode} {neg : Bool} {bs : List BoundNode}
    (hne : ¬p.isEmpty = true) (h : bindChildren vs p neg = .ok bs) : bs ≠ [] := by
  cases p with
  | nil => exact absurd rfl hne
  | cons c o =>
    obtain ⟨b, -, hr⟩ := bind_eq_ok h
    obtain ⟨t, -, hs⟩ := bind_eq_ok hr
    cases hs
    exact cons_ne_nil _ _

mutual

/-- Planning and binding keep the meaning: negation reaches the leaves. -/
lemma planNode_selects (laws : p.catalog.Laws) (hs : schema.Stores row) :
    ∀ (e : PredicateExpr ScalarExpr PgComparisonOp) (neg : Bool) (node : PlannedNode)
      (b : BoundNode), p.Readable schema e → p.planNode ss e = some node →
      node.bindNegated vs neg = .ok b → b.Fits schema → p.Selects schema row rest vs (!neg) e b
  | .comparison operator (.column column) (.value value), neg, node, b, hr, hp, hb, hf =>
    columnComparison_selects laws hs hr hp hb hf
  | .comparison operator (.value value) (.column column), neg, node, b, hr, hp, hb, hf =>
    columnComparison_selects laws hs hr hp hb hf
  | .isNull (.column column), neg, node, b, _, hp, hb, _ => by
    obtain ⟨planned, hco, rfl⟩ := Option.map_eq_some_iff.mp hp
    cases hb
    exact (nullTest_selects neg hco).1
  | .isNotNull (.column column), neg, node, b, _, hp, hb, _ => by
    obtain ⟨planned, hco, rfl⟩ := Option.map_eq_some_iff.mp hp
    cases hb
    exact (nullTest_selects neg hco).2
  | .and children, neg, node, b, hr, hp, hb, hf
  | .or children, neg, node, b, hr, hp, hb, hf => by
    obtain ⟨planned, hpl, hn⟩ := Option.bind_eq_some_iff.mp hp
    split_ifs at hn with he
    cases hn
    obtain ⟨bs, hbou, hbo⟩ := map_eq_ok hb
    have hne := bounds_ne_nil he hbou
    have ha : BoundNode.FitsAll schema bs := by cases neg <;> cases hbo <;> exact hf
    have hc := planChildren_selects laws hs children neg planned bs hr hpl hbou ha
    cases neg with
    | false =>
      cases hbo
      first
      | exact and_selects hc hne all_eq_true
      | exact or_selects hc hne any_eq_true
    | true =>
      cases hbo
      first
      | exact or_selects hc hne all_eq_false
      | exact and_selects hc hne any_eq_false
  | .not c, neg, node, b, hr, hp, hb, hf => by
    obtain ⟨planned, hpl, rfl⟩ := Option.map_eq_some_iff.mp hp
    have hch := planNode_selects laws hs c (!neg) planned b hr hpl hb hf
    refine ⟨hch.1, hch.2.trans ?_⟩
    rw [eval]
    cases neg <;> simp

lemma planChildren_selects (laws : p.catalog.Laws) (hs : schema.Stores row) :
    ∀ (children : List (PredicateExpr ScalarExpr PgComparisonOp)) (neg : Bool)
      (planned : List PlannedNode) (bs : List BoundNode),
      p.ReadableAll schema children → p.planChildren ss children = some planned →
      bindChildren vs planned neg = .ok bs → BoundNode.FitsAll schema bs →
      List.Forall₂ (p.Selects schema row rest vs !neg) children bs
  | [], neg, planned, bs, _, hp, hb, _ => by
    cases hp
    cases hb
    exact .nil
  | child :: others, neg, planned, bs, hr, hp, hb, hf => by
    obtain ⟨f, hfi, hres⟩ := Option.bind_eq_some_iff.mp hp
    obtain ⟨t, ht, rfl⟩ := Option.map_eq_some_iff.mp hres
    obtain ⟨b, hbo, hre⟩ := bind_eq_ok hb
    obtain ⟨bt, hbt, hsa⟩ := bind_eq_ok hre
    cases hsa
    exact .cons (planNode_selects laws hs child neg f b hr.1 hfi hbo hf.1)
      (planChildren_selects laws hs others neg t bt hr.2 ht hbt hf.2)

end

end ParquetFilterPlanner
end LagoDB.Parquet
