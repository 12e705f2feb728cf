import LagoDB.ParquetExactness

/-!
# Row groups

Statistics bound the values of a column in a row group. A comparison that is TRUE
on one of its rows cannot lie outside the bounds, and a null test cannot contradict
the null count, so a group with a matching row is always read.
-/
namespace LagoDB.Parquet

open Std.TransCmp SqlLogic Pushdown ExceptLoop Iceberg List Option BoundNode ComparisonOperator
open PruningColumn
open RuntimePredicates (DataType ArrowField)

/-! ## Sound statistics -/

/-- The bounds that are present enclose a value. -/
structure ValueStatistics.Encloses {α : Type} (typed : ValueStatistics α)
    (order : α → α → Ordering) (value : α) : Prop where
  min : ∀ bound, typed.min = some bound → order bound value ≠ .gt
  max : ∀ bound, typed.max = some bound → order bound value ≠ .lt

/-- Bounds are of physical values. -/
def Statistics.Encloses : Statistics → ArrowValue → Prop
  | .boolean typed, .boolean value => typed.Encloses compare value
  | .int32 typed, .int16 value | .int32 typed, .int32 value => typed.Encloses compare value
  | .int64 typed, .int64 value => typed.Encloses compare value
  | .byteArray typed, .utf8 bytes | .byteArray typed, .largeUtf8 bytes =>
    typed.Encloses byteOrder bytes
  | _, _ => True

structure Statistics.Sound (statistics : Statistics) (cells : List (Option ArrowValue)) :
    Prop where
  encloses : ∀ value, some value ∈ cells → statistics.Encloses value
  nullCount : ∀ nulls, statistics.nullCountOpt = some nulls → nulls = cells.count none

/-- The metadata tells the truth about the rows of the group. -/
structure RowGroupMetaData.Describes (rowGroup : RowGroupMetaData)
    (parquetSchema : SchemaDescriptor) (rows : List Row) : Prop where
  numRows : rowGroup.numRows = rows.length
  statistics : ∀ (leaf root : ℕ) (statistics : Statistics),
    parquetSchema.columnRoots[leaf]? = some root → parquetSchema.isPrimitive[root]? = some true →
      rowGroup.columns[leaf]? = some (some statistics) →
        statistics.Sound (rows.map fun row => (row[root]?).join)

/-! ## Bounds -/

section Range

variable {α : Type} {typed : ValueStatistics α} {o : α → Ordering} {pos : Ordering}

lemma range_min (h : (typed.range o).min = some pos) : ∃ b, typed.min = some b ∧ o b = pos := by
  unfold ValueStatistics.range at h
  dsimp only at h
  split_ifs at h
  exact map_eq_some_iff.mp h

lemma range_max (h : (typed.range o).max = some pos) : ∃ b, typed.max = some b ∧ o b = pos := by
  unfold ValueStatistics.range at h
  dsimp only at h
  split_ifs at h
  exact map_eq_some_iff.mp h

end Range

section Bounds

variable {α : Type} {o : α → α → Ordering} [Std.TransCmp o] {typed : ValueStatistics α} {t v : α}

section

variable (h : typed.Encloses o t)

include h

lemma min_position (v : α) : ((o t v).isLE = true → (typed.range fun b => o b v).min ≠ some .gt) ∧
      (o t v = .lt → (typed.range fun b => o b v).min ≠ some .eq) := by
  refine ⟨fun hs hm => ?_, fun hs hm => ?_⟩
  all_goals
    obtain ⟨b, hb, hp⟩ := range_min hm
    have hle : (o b t).isLE = true := Ordering.isLE_iff_ne_gt.mpr (h.min b hb)
  · cases hp ▸ isLE_trans hle hs
  · cases hp ▸ lt_of_isLE_of_lt hle hs

lemma max_position (v : α) : ((o t v).isGE = true → (typed.range fun b => o b v).max ≠ some .lt) ∧
      (o t v = .gt → (typed.range fun b => o b v).max ≠ some .eq) := by
  refine ⟨fun hs hm => ?_, fun hs hm => ?_⟩
  all_goals
    obtain ⟨b, hb, hp⟩ := range_max hm
    have hge : (o b t).isGE = true := Ordering.isGE_iff_ne_lt.mpr (h.max b hb)
  · cases hp ▸ isGE_trans hge hs
  · cases hp ▸ gt_of_isGE_of_gt hge hs

/-- A value between the bounds that compares as wanted leaves room for a match. -/
lemma mightMatch_of_encloses {op : ComparisonOperator} (hh : op.kind.holds (o t v) = true) :
    mightMatch op (typed.range fun b => o b v) = true := by
  obtain ⟨hm, hml⟩ := min_position h v
  obtain ⟨hma, hmg⟩ := max_position h v
  generalize typed.range (fun b => o b v) = range at hm hml hma hmg ⊢
  generalize o t v = position at hh hm hml hma hmg
  cases op <;> cases position <;> simp_all [mightMatch,
    PgComparisonKind.holds, PlannedComparisonOperator.kind]

end

end Bounds

instance byteOrder_transCmp : Std.TransCmp byteOrder :=
  inferInstanceAs (Std.TransCmp (List.compareLex compare))

/-! ## Columns -/

section Columns

variable {s : SchemaDescriptor} {sch : Schema} {r : RowGroupMetaData} {rows : List Row} {row : Row}
  {c : PlannedColumn} {n : PruningColumn}

section

variable (hdes : r.Describes s rows)

include hdes

lemma statistics_sound (hb : bind c s sch = .ok (some n))
    {ss : Statistics} (hs : n.statistics r = some ss) : ss.Sound (rows.map (sch.cell c)) := by
  obtain ⟨root, hro, hr⟩ := bind_eq_ok hb
  have hc : sch.cell c = fun row => (row[root]?).join :=
    funext fun row => (Schema.cell_root hro row).1
  rw [hc]
  split at hr
  next => cases hr
  next => cases hr
  next hp =>
    split at hr
    next l hle =>
      cases hr
      obtain ⟨hl, hf, -⟩ := List.findIdx?_eq_some_iff_getElem.mp hle
      refine hdes.statistics l root ss ?_ hp (join_eq_some_iff.mp hs)
      rw [List.getElem?_eq_getElem hl]
      exact congrArg some (beq_iff_eq.mp hf)
    next => cases hr

lemma rowCount_eq : r.rowCount = some rows.length := by
  unfold RowGroupMetaData.rowCount
  rw [hdes.numRows, if_neg (by omega), Int.toNat_natCast]

lemma nullCount_ne_rowCount {ss : Statistics} (hs : ss.Sound (rows.map (sch.cell c)))
    (hrow : row ∈ rows) {cell : ArrowValue} (hce : sch.cell c row = some cell) :
    ss.nullCountOpt ≠ r.rowCount := by
  rw [rowCount_eq hdes]
  intro hsa
  have hc := hs.nullCount _ hsa
  rw [← length_map (sch.cell c), eq_comm, count_eq_length] at hc
  have hn := hc (sch.cell c row) (mem_map_of_mem hrow)
  rw [hce] at hn
  cases hn

end

/-- A cell ordered against a literal lies in the literal's range of statistics. -/
lemma mightMatch_of_sound {ss : Statistics} {op : ComparisonOperator} {v : BoundValue}
    {d : DataType} {sc cell : ArrowValue} {o : Ordering} (he : ss.Encloses cell)
    (hs : v.scalar d = .ok sc) (ho : cell.order sc = some o) (hh : op.kind.holds o = true) :
    mightMatch op (v.rowGroupRange ss) = true := by
  have hu : mightMatch op .unknown = true := by cases op <;> rfl
  cases v with
  | bool v | i16 v | i32 v | i64 v =>
    cases d <;> try cases hs
    cases cell <;> try cases ho
    cases ss <;> first
      | exact hu
      | exact mightMatch_of_encloses he hh
  | string b =>
    cases d <;> try cases hs
    all_goals
      cases cell <;> try cases ho
      cases ss <;> first
        | exact hu
        | exact mightMatch_of_encloses he hh
  | decimal128 c s => exact hu

section

variable (hdes : r.Describes s rows) (hb : bind c s sch = .ok (some n)) (hrow : row ∈ rows)

include hdes hb hrow

lemma comparison_mightMatch {op : ComparisonOperator} {v : BoundValue}
    (hh : (comparison op c v).holds sch row = true) : n.comparisonMightMatch r op v = true := by
  rw [holds] at hh
  split at hh
  next cell sc hc hsc =>
    obtain ⟨o, ho, hm⟩ := (any_eq_true _ _).mp hh
    unfold comparisonMightMatch
    cases hs : n.statistics r with
    | none => rfl
    | some s =>
      have hso := statistics_sound hdes hb hs
      have hme : some cell ∈ rows.map (sch.cell c) := hc ▸ mem_map_of_mem hrow
      dsimp only
      rw [if_neg (nullCount_ne_rowCount hdes hso hrow hc)]
      exact mightMatch_of_sound (hso.encloses cell hme) hsc ho hm
  next => cases hh

lemma nulls_mightMatch : n.nullsMightMatch r (sch.cell c row).isNone = true := by
  unfold nullsMightMatch
  cases hs : n.statistics r with
  | none => rfl
  | some s =>
    have hso := statistics_sound hdes hb hs
    dsimp only
    cases hn : s.nullCountOpt with
    | none => rfl
    | some ns =>
      cases hc : sch.cell c row with
      | none =>
        have hm : none ∈ rows.map (sch.cell c) := hc ▸ mem_map_of_mem hrow
        have hp : 0 < ns := by
          rw [hso.nullCount ns hn]
          exact count_pos_iff.mpr hm
        simp only [isNone_none, if_true, bne_iff_ne]
        omega
      | some cell =>
        have hne := nullCount_ne_rowCount hdes hso hrow hc
        rw [hn] at hne
        simpa using hne

end

end Columns

/-! ## Trees -/

namespace PruningNode

variable {parquetSchema : SchemaDescriptor} {schema : Schema} {r : RowGroupMetaData}
  {rows : List Row} {row : Row}

lemma bindAll_eq (s : SchemaDescriptor) (sch : Schema) (cs : List BoundNode) :
    bindAll s sch cs = cs.mapM (bind s sch) := by
  induction cs with
  | nil => rfl
  | cons c rest ih => rw [bindAll, ih, mapM_cons]

variable {cs : List PruningNode}

lemma allMightMatch_iff : allMightMatch r cs = true ↔ ∀ c ∈ cs, c.rowGroupMightMatch r = true := by
  induction cs with
  | nil => simp [allMightMatch]
  | cons c rest ih => rw [allMightMatch, Bool.and_eq_true, ih, forall_mem_cons]

lemma anyMightMatch_iff : anyMightMatch r cs = true ↔ ∃ c ∈ cs, c.rowGroupMightMatch r = true := by
  induction cs with
  | nil => simp [anyMightMatch]
  | cons c rest ih => rw [anyMightMatch, Bool.or_eq_true, ih, exists_mem_cons_iff]

variable {n : PruningNode}

lemma bindColumn_mightMatch {c : PlannedColumn} {p : PruningColumn → PruningNode}
    (h : bindColumn c parquetSchema schema p = .ok n)
    (hp : ∀ b, PruningColumn.bind c parquetSchema schema = .ok (some b) →
      (p b).rowGroupMightMatch r = true) : n.rowGroupMightMatch r = true := by
  obtain ⟨b, hb, rfl⟩ := map_eq_ok h
  cases b with
  | none => rfl
  | some c => exact hp c hb

/-- A group with a row on which the tree is TRUE is not pruned. -/
lemma mightMatch_of_holds (hdes : r.Describes parquetSchema rows)
    (hrow : row ∈ rows) (node : BoundNode) (hbi : bind parquetSchema schema node = .ok n)
    (hh : node.holds schema row = true) : n.rowGroupMightMatch r = true := by
  induction node using tree_induction generalizing n with
  | leaf node hl =>
    cases node with
    | comparison o column v =>
      refine bindColumn_mightMatch hbi fun b hb => ?_
      exact comparison_mightMatch hdes hb hrow hh
    | isNull column =>
      refine bindColumn_mightMatch hbi fun b hb => ?_
      have hm := nulls_mightMatch hdes hb hrow
      rw [holds] at hh
      rw [hh] at hm
      exact hm
    | isNotNull column =>
      refine bindColumn_mightMatch hbi fun b hb => ?_
      have hm := nulls_mightMatch hdes hb hrow
      rw [holds] at hh
      rw [isNone_eq_false_iff.mpr hh] at hm
      exact hm
    | and c | or c => cases hl
    | neverTrue => cases hh
  | and c ih =>
    obtain ⟨b, hb, rfl⟩ := map_eq_ok hbi
    rw [bindAll_eq] at hb
    rw [holds, holdsAll_iff] at hh
    rw [rowGroupMightMatch, allMightMatch_iff]
    intro p hp
    obtain ⟨ch, hc, hpr⟩ := (mapM_eq_ok hb p).mp hp
    exact ih ch hc hpr (hh ch hc)
  | or c ih =>
    obtain ⟨b, hb, rfl⟩ := map_eq_ok hbi
    rw [bindAll_eq] at hb
    rw [holds, holdsAny_iff] at hh
    rw [rowGroupMightMatch, anyMightMatch_iff]
    obtain ⟨ch, hc, hm⟩ := hh
    obtain ⟨p, hp⟩ := mapM_ok_of_mem hb hc
    exact ⟨p, (mapM_eq_ok hb p).mpr ⟨ch, hc, hp⟩, ih ch hc hp hm⟩

lemma combined_mightMatch (ns : List PruningNode) :
    (combined .and ns).rowGroupMightMatch r = true ↔ ∀ n ∈ ns, n.rowGroupMightMatch r = true := by
  unfold combined
  split
  next n => simp
  next => rw [rowGroupMightMatch, allMightMatch_iff]

end PruningNode

/-! ## Files -/

lemma combined_answers {k : ArrowKernel} {rs : List ℕ} {sch : Schema} {row : Row}
    {bs : List BoundNode} {es : List ExecutableNode} (hne : bs ≠ [])
    (h : List.Forall₂ (Answers k rs sch row) bs es) :
    ∃ t, (combined .and es).evaluate k (projected rs row) = .ok t ∧
      (t = some true ↔ ∀ b ∈ bs, b.holds sch row = true) := by
  unfold combined
  split
  next e =>
    obtain ⟨b, o, hb, ho, rfl⟩ := forall₂_cons_right_iff.mp h
    obtain rfl := forall₂_nil_right_iff.mp ho
    simpa [Answers] using hb
  next =>
    obtain ⟨t, ht, hi⟩ := and_answers hne h
    rw [holds, holdsAll_iff] at hi
    exact ⟨t, ht, hi⟩

/-- A filter pushed to a scan: an expression with the types and the values of its
slots. -/
structure PushedFilter where
  expression : PredicateExpr ScalarExpr PgComparisonOp
  slots : ℕ → RuntimeValueSpec
  values : RuntimeValueBindings

namespace PushedFilter

variable (planner l : ParquetFilterPlanner) (schema : Schema)
  (rest : ScalarSemantics ScalarExpr PgComparisonOp Row)

/-- The filter was planned and its slots are bound. -/
def Binds (filter : PushedFilter) (bound : BoundNode) : Prop :=
  ∃ node, planner.planNode filter.slots filter.expression = some node ∧
    node.bind filter.values = .ok bound

def eval (filter : PushedFilter) (row : Row) : Truth :=
  filter.expression.eval (planner.semantics schema rest filter.values) row

end PushedFilter

/-- What a file's compiled predicate does for the filters behind it. -/
structure ParquetFilePredicate.Filters (predicate : ParquetFilePredicate)
    (planner : ParquetFilterPlanner) (parquetSchema : SchemaDescriptor) (schema : Schema)
    (rest : ScalarSemantics ScalarExpr PgComparisonOp Row) (filters : List PushedFilter) :
    Prop where
  /-- The row filter answers on every row, with TRUE exactly where SQL does. -/
  exact : ∀ kernel : ArrowKernel, kernel.Laws → ∀ row, schema.Stores row →
    ∃ truth, predicate.rowFilter.evaluate kernel row = .ok truth ∧
    (truth = some true ↔ ∀ filter ∈ filters, filter.eval planner schema rest row = some true)
  /-- A row group with a matching row is selected. -/
  selects : ∀ (rowGroups : List RowGroupMetaData) (index : ℕ) (rowGroup : RowGroupMetaData)
    (rows : List Row), rowGroups[index]? = some rowGroup →
      rowGroup.Describes parquetSchema rows → (∀ row ∈ rows, schema.Stores row) →
        (∃ row ∈ rows, ∀ filter ∈ filters, filter.eval planner schema rest row = some true) →
          index ∈ predicate.selectedRowGroups rowGroups

section Files

variable {planner l : ParquetFilterPlanner} {parquetSchema : SchemaDescriptor} {schema : Schema}
  {rest : ScalarSemantics ScalarExpr PgComparisonOp Row} {filters : List PushedFilter}
  {bounds bs : List BoundNode} {row : Row}

lemma filters_hold (laws : l.catalog.Laws) (hst : schema.Stores row)
    (hr : ∀ f ∈ filters, l.Readable schema f.expression)
    (hb : List.Forall₂ (PushedFilter.Binds l) filters bs) (hf : BoundNode.FitsAll schema bs) :
    BoundNode.NonEmptyAll bs ∧ ((∀ b ∈ bs, b.holds schema row = true) ↔
      ∀ f ∈ filters, f.eval l schema rest row = some true) := by
  induction hb with
  | nil => exact ⟨trivial, by simp⟩
  | cons hh ht ih =>
    obtain ⟨n, hp, hbo⟩ := hh
    obtain ⟨hfi, ho⟩ := forall_mem_cons.mp hr
    have hs : l.Selects schema row rest _ true _ _ :=
      ParquetFilterPlanner.planNode_selects laws hst _ false n _ hfi hp hbo hf.1
    obtain ⟨hn, hi⟩ := ih ho hf.2
    refine ⟨⟨hs.1, hn⟩, ?_⟩
    rw [forall_mem_cons, forall_mem_cons, hi, hs.2]
    rfl

lemma mem_selectedRowGroups {p : ParquetFilePredicate} {rs : List RowGroupMetaData} {i : ℕ}
    {r : RowGroupMetaData} (hi : rs[i]? = some r) (hr : 0 < r.numRows)
    (hm : p.pruning.rowGroupMightMatch r = true) : i ∈ p.selectedRowGroups rs := by
  refine mem_map.mpr ⟨(r, i), mem_filter.mpr ⟨?_, ?_⟩, rfl⟩
  · exact mem_zipIdx_iff_getElem?.mpr hi
  · simp [hr, hm]

/-- Compiling the filters of a scan for a file: rows exactly, row groups soundly. -/
theorem tryNew_filters (laws : planner.catalog.Laws) (hne : filters ≠ [])
    (hreadable : ∀ filter ∈ filters, planner.Readable schema filter.expression)
    (hbinds : List.Forall₂ (PushedFilter.Binds planner) filters bounds)
    {predicate : ParquetFilePredicate}
    (h : ParquetFilePredicate.tryNew bounds parquetSchema schema = .ok predicate) :
    predicate.Filters planner parquetSchema schema rest filters := by
  obtain ⟨o, hco, hre⟩ := bind_eq_ok h
  obtain ⟨p, hp, hsa⟩ := bind_eq_ok hre
  obtain ⟨c, -, hr⟩ := bind_eq_ok hco
  obtain ⟨e, he, hc⟩ := bind_eq_ok hr
  cases hc
  cases hsa
  have hbn : bounds ≠ [] := by
    intro hnil
    rw [hnil] at hbinds
    exact hne (forall₂_nil_right_iff.mp hbinds)
  have hf : BoundNode.FitsAll schema bounds := by
    rw [bindSchemaAll_eq] at he
    refine fitsAll_iff.mpr fun b hb => ?_
    obtain ⟨x, hexe⟩ := mapM_ok_of_mem he hb
    exact bindSchema_fits b hexe
  constructor
  · intro kernel hk row hs
    obtain ⟨hn, hiff⟩ := filters_hold laws hs hreadable hbinds hf
    have ha := childrenAnswer (fun b hb _ => bindSchema_answers hk hs b
      (nonEmptyAll_iff.mp hn b hb)) he
    obtain ⟨t, ht, hh⟩ := combined_answers hbn ha
    exact ⟨t, ht, hh.trans hiff⟩
  · rintro r i rowGroup rows hi hdescribes hs ⟨row, hrow, hm⟩
    have hpo : 0 < rowGroup.numRows := by
      rw [hdescribes.numRows]
      exact_mod_cast length_pos_of_mem hrow
    refine mem_selectedRowGroups hi hpo ?_
    rw [PruningNode.combined_mightMatch]
    intro node hno
    rw [PruningNode.bindAll_eq] at hp
    obtain ⟨b, hb, hbind⟩ := (mapM_eq_ok hp node).mp hno
    have hh := (filters_hold laws (hs row hrow) hreadable hbinds hf).2.mpr hm
    exact PruningNode.mightMatch_of_holds hdescribes hrow b hbind (hh b hb)

end Files

/-! ## An example file -/

def fileCatalog : Catalog where
  forOperator
    | 97 => some ⟨.int4, .int4, 66, .less⟩
    | 1757 => some ⟨.numeric, .numeric, 1721, .greaterEqual⟩
    | 98 => some ⟨.text, .text, 67, .equal⟩
    | _ => none
  isDeterministic _ := true
  isByteOrdered _ := false
  collate _ := byteOrder
  otherOperator _ _ _ := none
  storedMember _ _ _ := none

def filePlanner : ParquetFilterPlanner :=
  .begin ⟨[⟨some "id", .int4, -1⟩, ⟨some "price", .numeric, numericTypmod 5 2⟩,
    ⟨some "name", .text, -1⟩]⟩ true fileCatalog

def fileSchema : Schema :=
  [⟨"id", .int32, none⟩, ⟨"price", .decimal128 5 2, none⟩, ⟨"name", .utf8, none⟩]

/-- `NOT (id < 7 OR price >= 'NaN') AND name = 'a'`. -/
def fileFilter : PushedFilter where
  expression :=
    .and [.not (.or [.comparison ⟨97, 66, .bool, 0, 0⟩ (.column idColumn) (.value 0),
        .comparison ⟨1757, 1721, .bool, 0, 0⟩ (.column priceColumn) (.value 1)]),
      .comparison ⟨98, 67, .bool, 0, 100⟩ (.value 2) (.column nameColumn)]
  slots
    | 0 => ⟨⟨.int4, -1, 0⟩, .constant⟩
    | 1 => ⟨⟨.numeric, numericTypmod 5 2, 0⟩, .constant⟩
    | _ => ⟨⟨.text, -1, 100⟩, .externalParam⟩
  values
    | 0 => ⟨some (.scalar (.integral 7)), ⟨⟨.int4, -1, 0⟩, .constant⟩⟩
    | 1 => ⟨some (.scalar (.numeric .nan)), ⟨⟨.numeric, numericTypmod 5 2, 0⟩, .constant⟩⟩
    | _ => ⟨some (.scalar (.text [97])), ⟨⟨.text, -1, 100⟩, .externalParam⟩⟩

/-- No other kind of leaf occurs in the filter. -/
def otherLeaves : ScalarSemantics ScalarExpr PgComparisonOp Row where
  isNull _ _ := false
  boolean _ _ := none
  compare _ _ _ _ := none
  isNan _ _ := none
  startsWith _ _ _ := none
  inSet _ _ _ _ := none

lemma fileCatalog_laws : fileCatalog.Laws where
  deterministic _ _ _ _ := byteOrder_eq
  byteOrdered _ h := nomatch h

/-- The NaN comparison becomes a null test under its negation. -/
theorem fileFilter_filters :
    ∃ predicate : ParquetFilePredicate, predicate.Filters filePlanner ⟨[true, true, true],
      [0, 1, 2]⟩ fileSchema otherLeaves [fileFilter] := by
  have hr : ∀ f ∈ [fileFilter], filePlanner.Readable fileSchema f.expression := by
    intro f hf
    rw [mem_singleton.mp hf]
    refine ⟨⟨?_, ?_, trivial⟩, ?_, trivial⟩
    · rintro p ⟨⟩ ⟨⟩
    · rintro p ⟨⟩ _ _
      rfl
    · rintro p ⟨⟩ ⟨⟩
  have hb : List.Forall₂ (PushedFilter.Binds filePlanner) [fileFilter]
      [.and [.and [.comparison .ge ⟨1, "id"⟩ (.i32 7), .isNotNull ⟨2, "price"⟩],
        .comparison .eq ⟨3, "name"⟩ (.string [97])]] :=
    .cons ⟨_, rfl, rfl⟩ .nil
  exact ⟨_, tryNew_filters fileCatalog_laws (by simp) hr hb rfl⟩

end LagoDB.Parquet
