import LagoDB.DecodedValue
import Mathlib.Data.List.ReduceOption

/-!
# What bound predicates select

A planned tree means a three-valued condition over the stored row and the bound
slots. The row filter has a reading of its own, which differs where a comparison is
with a column that the data file lacks: there it decides what SQL leaves NULL. Binding
is faithful to that reading: the native predicate selects the rows on which it is TRUE,
or FALSE when the tree is bound negated. A set may widen the predicate, so it is
faithful one way only and must stay under an even number of negations; so must a prefix
test, whose complement would admit NULL.
-/
namespace LagoDB.Iceberg

open SqlLogic Pushdown ExceptLoop Option Truth PlannedIcebergColumn BooleanTestKind

/-! ## The meaning of a planned tree -/

/-- A boolean column as a truth value. -/
def SqlValue.truth : Option SqlValue → Truth
  | some (.boolean value) => some value
  | _ => none

def SqlValue.nanTruth : Option SqlValue → Truth
  | none => none
  | some (.number .nan) => some true
  | some _ => some false

def SqlValue.prefixTruth : Option SqlValue → Option SqlValue → Truth
  | some (.text bytes), some (.text pre) => some (pre.isPrefixOf bytes)
  | _, _ => none

/-- `value = ANY (set)` for a comparison of the value with one element. -/
def RuntimeValue.memberTruth (set : RuntimeValue) (compare : Option SqlValue → Truth) : Truth :=
  match set.datum with
  | some (.array elements) =>
    any (elements.map fun element => compare (element.map PgDatum.toSql))
  | _ => none

/-- A slot against a column that the file lacks. -/
def RuntimeValue.absentTruth (value : RuntimeValue) (valueType : PlannedValueType)
    (kind : PgComparisonKind) : Truth :=
  match value.datum with
  | some (.scalar datum) =>
    match value.decode valueType datum with
    | .ok (some bound) => bound.absentTruth kind
    | _ => none
  | _ => none

namespace PlannedIcebergNode

section

variable (compare : PlannedComparisonOperator → PlannedIcebergColumn → ℕ → PlannedValueType → Truth)
  (values : RuntimeValueBindings) (row : Row)

mutual

/-- The value of a tree, given the values of its comparisons. -/
def evalWith : PlannedIcebergNode → Truth
  | .alwaysTrue => some true
  | .alwaysFalse => some false
  | .comparison operator column value valueType => compare operator column value valueType
  | .booleanTest kind column => some (kind.test (SqlValue.truth (column.value row)))
  | .isNull column => some (column.value row).isNone
  | .isNotNull column => some (column.value row).isSome
  | .isNan column => SqlValue.nanTruth (column.value row)
  | .isNotNan column => Truth.not (SqlValue.nanTruth (column.value row))
  | .startsWith column pre => SqlValue.prefixTruth (column.value row) (values pre).toSql
  | .inSet column set _ =>
    (values set).memberTruth
      (PgComparisonKind.equal.truth byteOrder (column.value row))
  | .and children => all (evalAll children)
  | .or children => any (evalAll children)
  | .not child => Truth.not (evalWith child)

def evalAll : List PlannedIcebergNode → List Truth
  | [] => []
  | child :: rest => evalWith child :: evalAll rest

end

lemma evalAll_eq (cs : List PlannedIcebergNode) :
    evalAll compare values row cs = cs.map (evalWith compare values row) := by
  induction cs with
  | nil => rfl
  | cons c r ih => rw [evalAll, ih, List.map_cons]

/-- What PostgreSQL computes. -/
abbrev eval : PlannedIcebergNode → Truth :=
  evalWith (fun operator column value _ =>
    operator.kind.truth byteOrder (column.value row) (values value).toSql) values row

/-- What the row filter makes of the tree. -/
abbrev filterEval : PlannedIcebergNode → Truth :=
  evalWith (fun operator column value valueType => column.filterTruth operator.kind row
    ((values value).absentTruth valueType operator.kind) (values value).toSql) values row

end

def isLeaf : PlannedIcebergNode → Bool
  | .and _ | .or _ | .not _ => false
  | _ => true

@[elab_as_elim]
lemma tree_induction {motive : PlannedIcebergNode → Prop} (node : PlannedIcebergNode)
    (leaf : ∀ node, node.isLeaf = true → motive node)
    (and : ∀ cs, (∀ c ∈ cs, motive c) → motive (.and cs))
    (or : ∀ cs, (∀ c ∈ cs, motive c) → motive (.or cs))
    (not : ∀ c, motive c → motive (.not c)) : motive node :=
  @PlannedIcebergNode.rec motive (fun cs => ∀ c ∈ cs, motive c)
    (leaf _ rfl) (leaf _ rfl) (fun _ _ _ _ => leaf _ rfl) (fun _ _ => leaf _ rfl)
    (fun _ => leaf _ rfl) (fun _ => leaf _ rfl) (fun _ => leaf _ rfl) (fun _ => leaf _ rfl)
    (fun _ _ => leaf _ rfl) (fun _ _ _ => leaf _ rfl) and or not (fun _ h => nomatch h)
    (fun _ _ hh hr => List.forall_mem_cons.mpr ⟨hh, hr⟩) node

section

variable
  {compare other : PlannedComparisonOperator → PlannedIcebergColumn → ℕ → PlannedValueType → Truth}
  {values : RuntimeValueBindings} {row : Row}

lemma evalWith_refines (h : ∀ o column v valueType, Truth.Refines (compare o column v valueType)
        (other o column v valueType)) (node : PlannedIcebergNode) :
    Truth.Refines (node.evalWith compare values row) (node.evalWith other values row) := by
  have hall {c : List PlannedIcebergNode} (ih : ∀ child ∈ c,
      Truth.Refines (child.evalWith compare values row) (child.evalWith other values row)) :
      List.Forall₂ Truth.Refines (c.map (evalWith compare values row))
        (c.map (evalWith other values row)) := by
    rw [List.forall₂_map_left_iff, List.forall₂_map_right_iff]
    exact List.forall₂_same.mpr ih
  induction node using tree_induction with
  | and c ih =>
    rw [evalWith, evalWith, evalAll_eq, evalAll_eq]
    exact .all (hall ih)
  | or c ih =>
    rw [evalWith, evalWith, evalAll_eq, evalAll_eq]
    exact .any (hall ih)
  | not child ih => exact ih.not
  | leaf node hl =>
    cases node with
    | and | or | not => cases hl
    | comparison o column v valueType => exact h o column v valueType
    | _ => exact fun _ hv => hv

lemma sql_null (kind : PgComparisonKind) {column : PlannedIcebergColumn} {v : Option SqlValue}
    (h : row.present column.fieldId = false) :
    kind.truth byteOrder (column.value row) v = none := by
  simp [PlannedIcebergColumn.value, row.absent _ h, PgComparisonKind.truth]

/-- The row filter decides nothing otherwise than SQL does. -/
lemma eval_refines (node : PlannedIcebergNode) :
    Truth.Refines (node.eval values row) (node.filterEval values row) := by
  refine evalWith_refines (fun o column value valueType v hv => ?_) node
  unfold filterTruth
  split_ifs with hp
  · exact hv
  · rw [sql_null _ (Bool.eq_false_iff.mpr hp)] at hv
    cases hv

/-- With every column in the file there is one reading. -/
lemma filterEval_refines (h : ∀ id, row.present id = true) (node : PlannedIcebergNode) :
    Truth.Refines (node.filterEval values row) (node.eval values row) := by
  refine evalWith_refines (fun o column value valueType v hv => ?_) node
  rwa [filterTruth, if_pos (h _)] at hv

end

/-- The tree is TRUE in the row filter's reading only where SQL has it TRUE: ordering the
columns that the row's file lacks below every literal makes no difference. -/
def FilterAgrees (values : RuntimeValueBindings) (row : Row) (node : PlannedIcebergNode) : Prop :=
  node.filterEval values row = some true → node.eval values row = some true

end PlannedIcebergNode

/-! ## Faithful trees -/

def Schema.typeOf (schema : Schema) (id : ℤ) : Option IcebergType :=
  (schema.fieldById id).map Field.fieldType

lemma Schema.Stores.typed {sch : Schema} {row : Row} (h : sch.Stores row) {id : ℤ} {t : IcebergType}
    (ht : sch.typeOf id = some t) {s : Datum} (hr : row id = some s) : s.type = t ∧ s.inRange := by
  obtain ⟨f, hf, rfl⟩ := map_eq_some_iff.mp ht
  have hi : f.id = id := by simpa using List.find?_some hf
  exact h f (List.mem_of_find?_eq_some hf) s (hi ▸ hr)

namespace PlannedIcebergNode

mutual

/-- Literals fit their columns; sets, where they are allowed, and prefix tests
stand under an even number of negations. -/
def Faithful (schema : Schema) (sets : Bool) : PlannedIcebergNode → Bool → Prop
  | .comparison _ column _ valueType, _ =>
    schema.typeOf column.fieldId = some valueType.storage
  | .booleanTest _ column, _ => schema.typeOf column.fieldId = some .boolean
  | .startsWith column _, negated =>
    negated = false ∧ schema.typeOf column.fieldId = some .string
  | .inSet column _ valueType, negated =>
    negated = false ∧ sets = true ∧ schema.typeOf column.fieldId = some valueType.storage
  | .and children, negated => FaithfulAll schema sets children negated
  | .or children, negated => FaithfulAll schema sets children negated
  | .not child, negated => Faithful schema sets child !negated
  | _, _ => True

def FaithfulAll (schema : Schema) (sets : Bool) : List PlannedIcebergNode → Bool → Prop
  | [], _ => True
  | child :: rest, negated =>
    Faithful schema sets child negated ∧ FaithfulAll schema sets rest negated

end

lemma faithfulAll_iff {sch : Schema} {sets neg : Bool} {cs : List PlannedIcebergNode} :
    FaithfulAll sch sets cs neg ↔ ∀ c ∈ cs, c.Faithful sch sets neg := by
  induction cs with
  | nil => simp [FaithfulAll]
  | cons c r ih => rw [FaithfulAll, ih, List.forall_mem_cons]

end PlannedIcebergNode

/-- The predicate holds where the condition has the wanted value and, unless a
set may widen it, nowhere else. -/
def Selects (api : PredicateApi) (sets : Bool) (predicate : Predicate) (row : Row) (truth : Truth)
    (wanted : Bool) : Prop :=
  (truth = some wanted → api.selects predicate row = true) ∧
    (sets = false → api.selects predicate row = true → truth = some wanted)

lemma Selects.of_iff {api : PredicateApi} {sets : Bool} {p : Predicate} {row : Row} {truth : Truth}
    {w : Bool} (h : api.selects p row = true ↔ truth = some w) : Selects api sets p row truth w :=
  ⟨h.mpr, fun _ => h.mp⟩

attribute [local simp] PgComparisonKind.truth UnaryOperator.test reference value

section Leaves

open IcebergFilterBinder

variable {api : PredicateApi} {column : PlannedIcebergColumn} {p : Predicate} {row : Row}
  {v : RuntimeValue} {neg : Bool} {valueType : PlannedValueType}

open RuntimeValue

lemma comparison_iff (laws : api.Laws) {op : PlannedComparisonOperator}
    (hty : ∀ t, row column.fieldId = some t → t.type = valueType.storage ∧ t.inRange)
    (h : bindComparison api op column valueType v neg = .ok (some p)) :
    api.selects p row = true ↔
      column.filterTruth op.kind row (v.absentTruth valueType op.kind) v.toSql = some !neg := by
  obtain ⟨s, hs, hre⟩ := bind_eq_ok h
  unfold scalar at hs
  split at hs
  next hn =>
    cases hs
    cases hre
    simp [laws.always_false, filterTruth, absentTruth, toSql, hn]
  next a hda =>
    cases hs
    obtain ⟨d, hd, hbo⟩ := bind_eq_ok hre
    obtain ⟨bound, rfl, hb⟩ := bind_eq_some_iff.mp (Except.ok.inj hbo)
    rw [(decodeValue_decodes hd).selects laws hb hty, absentTruth, toSql, hda]
    dsimp only
    rw [hd]
    cases neg with
    | false => rfl
    | true =>
      rw [if_pos rfl, kind_negated, BoundComparisonValue.absentTruth_negated,
        filterTruth_negated, not_eq_true]
      rfl
  next => cases hs

open SqlValue

lemma booleanTest_iff (laws : api.Laws) (kind : BooleanTestKind)
    (hty : ∀ s, row column.fieldId = some s → s.type = .boolean) :
    api.selects (column.booleanTest api kind) row = kind.test (truth (column.value row)) := by
  cases hr : row column.fieldId with
  | none =>
    have hc (b : Bool) : api.selects (column.comparison .eq (.bool b)) row = false := by
      simp [comparison_none laws _ hr, BinaryOperator.admitsAbsent]
    cases kind <;> simp [booleanTest, hc, nullTest, laws.or, laws.unary, hr, truth, test]
  | some s =>
    have ht := hty s hr
    cases s with
    | bool v =>
      have hc (b : Bool) : api.selects (column.comparison .eq (.bool b)) row =
          PgComparisonKind.equal.holds (compare v b) :=
        @comparison_value _ .equal _ _ _ _ _ laws hr rfl rfl
      cases kind <;> cases v <;> simp [booleanTest, hc, nullTest, laws.or, laws.unary, hr, truth,
        test, PgComparisonKind.holds, Datum.read]
      rfl
    | _ => cases ht

lemma nullTest_eval (laws : api.Laws) (n : Bool) : api.selects (column.nullTest n) row =
      if n then (column.value row).isSome else (column.value row).isNone := by
  cases n <;> simp [nullTest, laws.unary]

lemma nanTruth_read (s : Datum) : nanTruth (some s.read) = some s.isNan := by
  cases s with
  | float v | double v => cases v <;> rfl
  | _ => rfl

lemma nanTest_iff (laws : api.Laws) (isNotNan : Bool) :
    api.selects (column.nanTest api isNotNan) row = true ↔
      nanTruth (column.value row) = some !isNotNan := by
  cases hr : row column.fieldId with
  | none => cases isNotNan <;> simp [nanTest, laws.and, laws.unary, hr, nanTruth]
  | some stored => cases isNotNan <;> simp [nanTest, laws.and, laws.unary, hr, nanTruth_read]

lemma prefix_iff (laws : api.Laws) (bs : Bytes)
    (hty : ∀ s, row column.fieldId = some s → s.type = .string) :
    api.selects (column.startsWith (.string bs)) row = true ↔
      prefixTruth (column.value row) (some (.text bs)) = some true := by
  cases hr : row column.fieldId with
  | none =>
    have hc := @comparison_none _ column _ (.string bs) laws .startsWith hr
    rw [comparison] at hc
    rw [startsWith, hc]
    simp [BinaryOperator.admitsAbsent, hr, prefixTruth]
  | some stored =>
    have ht := hty stored hr
    rw [startsWith, laws.binary_value _ _ _ _ _ hr ht]
    cases stored with
    | string t =>
      simp [hr, prefixTruth, BinaryOperator.test, Datum.startsWith, Datum.read]
    | _ => cases ht

lemma startsWith_iff (laws : api.Laws) {r : RuntimeValue}
    (hty : ∀ t, row column.fieldId = some t → t.type = .string)
    (h : bindStartsWith api column r false = .ok (some p)) :
    api.selects p row = true ↔ prefixTruth (column.value row) r.toSql = some true := by
  obtain ⟨s, hs, hr⟩ := bind_eq_ok h
  unfold scalar at hs
  split at hs
  next hn =>
    cases hs
    cases hr
    simp [laws.always_false, prefixTruth, toSql, hn]
  next a hda =>
    cases hs
    obtain ⟨d, hd, hb⟩ := bind_eq_ok hr
    obtain ⟨b, hby, rfl⟩ := map_eq_ok hd
    cases hb
    rw [toSql, hda, decodeText_eq hby]
    exact prefix_iff laws b hty
  next => cases hs

/-- Every element of a set becomes a literal or is out of the column's range. -/
lemma setLiterals_covers {e : RuntimeValueSpec} {data : List PgDatum} {s ls : List Datum}
    (h : setLiterals e valueType data s = .ok (some ls)) :
    (∀ l ∈ s, l ∈ ls) ∧ ∀ datum ∈ data, ∃ bound, Decodes valueType datum bound ∧
      ((∃ l ∈ ls, bound = .datum l) ∨ ∃ b, bound = .outsideInteger b) := by
  induction data generalizing s with
  | nil =>
    cases h
    exact ⟨fun _ h => h, fun _ h => nomatch h⟩
  | cons datum r ih =>
    obtain ⟨d, hd, hr⟩ := bind_eq_ok h
    split at hr
    next l =>
      obtain ⟨hs, ht⟩ := ih hr
      refine ⟨fun o ho => hs o (List.mem_append_left _ ho), ?_⟩
      refine List.forall_mem_cons.mpr ⟨?_, ht⟩
      have hl := hs l (List.mem_append_right _ (List.mem_singleton_self _))
      exact ⟨_, decodeValue_decodes hd, .inl ⟨l, hl, rfl⟩⟩
    next b =>
      obtain ⟨hs, ht⟩ := ih hr
      refine ⟨hs, List.forall_mem_cons.mpr ⟨?_, ht⟩⟩
      exact ⟨_, decodeValue_decodes hd, .inr ⟨b, rfl⟩⟩
    next => cases hr

section

variable (laws : api.Laws)
  (htyp : ∀ stored, row column.fieldId = some stored → stored.type = valueType.storage ∧
    stored.inRange)

include laws htyp

lemma element_covers {d : PgDatum} {b : BoundComparisonValue} {ls : List Datum}
    (hd : Decodes valueType d b)
    (hb : (∃ l ∈ ls, b = .datum l) ∨ ∃ boundary, b = .outsideInteger boundary)
    (he : PgComparisonKind.equal.truth byteOrder (column.value row) (some d.toSql) = some true) :
    api.selects (column.inSet ls) row = true := by
  cases hr : row column.fieldId with
  | none => simp [hr] at he
  | some stored =>
    obtain ⟨hty, hra⟩ := htyp stored hr
    rcases hb with ⟨l, hm, rfl⟩ | ⟨boundary, rfl⟩
    · obtain ⟨-, o, hl, hv⟩ := hd.literal hty
      obtain rfl : o = .eq := by simpa [hr, hv, PgComparisonKind.holds] using he
      exact laws.isIn_mem _ _ _ _ l hm hr hl
    · obtain ⟨o, hv, hev⟩ := hd.answers laws (@rfl _ (bindDecoded api .eq column _)) hr hty hra
      have hf : api.selects (allOrNone column (boundary.comparisonMatchesNonNull .equal)) row =
          false := by
        cases boundary <;> exact laws.always_false row
      have hh : PgComparisonKind.equal.holds o = true := by simpa [hr, hv] using he
      exact absurd (hf.symm.trans (hev.trans hh)) (by decide)

lemma inSet_covers {set : RuntimeValue} (h : bindInSet column valueType set = .ok (some p))
    (hm : set.memberTruth (PgComparisonKind.equal.truth byteOrder (column.value row)) = some true) :
    api.selects p row = true := by
  unfold bindInSet at h
  split at h
  next hn => simp [memberTruth, hn] at hm
  next e el ha _ =>
    obtain ⟨r, hr, hp⟩ := bind_eq_ok h
    cases r with
    | none =>
      cases hp
      exact laws.always_true row
    | some l =>
      cases hp
      rw [memberTruth, ha] at hm
      obtain ⟨truth, ht, rfl⟩ := any_eq_true.mp hm
      obtain ⟨s, hs, he⟩ := List.mem_map.mp ht
      cases s with
      | none => cases hv : column.value row <;> simp at he
      | some d =>
        have hda : d ∈ e.reduceOption := List.reduceOption_mem_iff.mpr hs
        obtain ⟨bound, hd, hb⟩ := (setLiterals_covers hr).2 d hda
        exact element_covers laws htyp hd hb he
  next => cases h

end

end Leaves

/-! ## Trees -/

section Trees

open IcebergFilterBinder PlannedIcebergNode

variable {api : PredicateApi} {vs : RuntimeValueBindings} {sch : Schema} {row : Row} {sets : Bool}
  {w : Bool} {truth : Truth} {ts : List Truth} {bound : List Predicate} {p : Predicate} {neg : Bool}
  {cs : List PlannedIcebergNode} {kind : LogicalKind}

lemma bindLogical_bound {motive : PlannedIcebergNode → Predicate → Prop} {s : Predicate}
    (hc : ∀ c ∈ cs, ∀ bound, bindNode api vs c neg = .ok (some bound) → motive c bound)
    (h : bindLogical api vs kind neg cs s = .ok (some p)) :
    ∃ bound, List.Forall₂ motive cs bound ∧ p = bound.foldl (kind.combine api) s := by
  induction cs generalizing s with
  | nil =>
    cases h
    exact ⟨[], .nil, rfl⟩
  | cons c rest ih =>
    obtain ⟨hh, ht⟩ := List.forall_mem_cons.mp hc
    obtain ⟨r, hr, hre⟩ := bind_eq_ok h
    cases r with
    | none => cases hre
    | some f =>
      obtain ⟨bound, hb, hp⟩ := ih ht hre
      exact ⟨f :: bound, .cons (hh f hr) hb, hp⟩

lemma foldl_and_eval (laws : api.Laws) (s : Predicate) (b : List Predicate) :
    api.selects (b.foldl api.and s) row = (api.selects s row && b.all (api.selects · row)) := by
  induction b generalizing s with
  | nil => simp
  | cons f r ih => rw [List.foldl_cons, ih, laws.and, List.all_cons, Bool.and_assoc]

lemma foldl_or_eval (laws : api.Laws) (s : Predicate) (b : List Predicate) :
    api.selects (b.foldl api.or s) row = (api.selects s row || b.any (api.selects · row)) := by
  induction b generalizing s with
  | nil => simp
  | cons f r ih => rw [List.foldl_cons, ih, laws.or, List.any_cons, Bool.or_assoc]

section

variable (laws : api.Laws)
  (h : List.Forall₂ (fun truth p => Selects api sets p row truth w) ts bound)

include laws h

lemma foldl_and_selects (ht : truth = some w ↔ ∀ t ∈ ts, t = some w) :
    Selects api sets (bound.foldl api.and .alwaysTrue) row truth w := by
  rw [Selects, ht, foldl_and_eval laws, laws.always_true, Bool.true_and]
  clear ht
  induction h with
  | nil => simp
  | @cons f p _ _ hh _ ih =>
    simp only [List.forall_mem_cons, List.all_cons, Bool.and_eq_true]
    exact ⟨fun ha => ⟨hh.1 ha.1, ih.1 ha.2⟩, fun hs ha => ⟨hh.2 hs ha.1, ih.2 hs ha.2⟩⟩

lemma foldl_or_selects (ht : truth = some w ↔ ∃ t ∈ ts, t = some w) :
    Selects api sets (bound.foldl api.or .alwaysFalse) row truth w := by
  rw [Selects, ht, foldl_or_eval laws, laws.always_false, Bool.false_or]
  clear ht
  induction h with
  | nil => simp
  | @cons f p _ _ hh _ ih =>
    simp only [List.exists_mem_cons_iff, List.any_cons, Bool.or_eq_true]
    exact ⟨fun ha => ha.imp hh.1 ih.1, fun hs ha => ha.imp (hh.2 hs) (ih.2 hs)⟩

end

lemma leaf_selects (laws : api.Laws) (hs : sch.Stores row) {node : PlannedIcebergNode}
    (hl : node.isLeaf = true) (hf : node.Faithful sch sets neg)
    (hb : bindNode api vs node neg = .ok (some p)) :
    Selects api sets p row (node.filterEval vs row) !neg := by
  cases node with
  | and | or | not => cases hl
  | alwaysTrue | alwaysFalse =>
    rw [bindNode] at hb
    cases hb
    exact .of_iff (by cases neg <;> simp [evalWith, laws.always_true, laws.always_false])
  | comparison o column value valueType =>
    rw [bindNode] at hb
    refine .of_iff ?_
    rw [comparison_iff laws (fun _ hr => hs.typed hf hr) hb, filterEval, evalWith]
  | booleanTest kind column =>
    cases hb
    refine .of_iff ?_
    rw [booleanTest_iff laws _ fun _ hr => (hs.typed hf hr).1, filterEval, evalWith]
    cases neg <;> simp [test_negated]
  | isNull column | isNotNull column =>
    cases hb
    refine .of_iff ?_
    rw [nullTest_eval laws, filterEval, evalWith]
    cases neg <;> cases hv : column.value row <;> simp
  | isNan column =>
    cases hb
    exact .of_iff (nanTest_iff laws neg)
  | isNotNan column =>
    cases hb
    refine .of_iff ?_
    rw [nanTest_iff laws, filterEval, evalWith]
    cases neg <;> simp
  | startsWith column r =>
    obtain ⟨rfl, ht⟩ := hf
    exact .of_iff (startsWith_iff laws (fun _ hr => (hs.typed ht hr).1) hb)
  | inSet column set valueType =>
    obtain ⟨rfl, hse, ht⟩ := hf
    refine ⟨inSet_covers laws (fun _ hr => hs.typed ht hr) hb, fun hn => ?_⟩
    rw [hse] at hn
    cases hn

/-- Binding carries negation to the leaves and is faithful there. -/
lemma bindNode_selects (laws : api.Laws) (hs : sch.Stores row) (node : PlannedIcebergNode)
    (hf : node.Faithful sch sets neg) (hbi : bindNode api vs node neg = .ok (some p)) :
    Selects api sets p row (node.filterEval vs row) !neg := by
  induction node using tree_induction generalizing neg p with
  | leaf node hl => exact leaf_selects laws hs hl hf hbi
  | not ch ih =>
    have hc := ih hf hbi
    rw [filterEval, evalWith]
    cases neg <;> simpa [Selects] using hc
  | and c ih | or c ih =>
    have ha := faithfulAll_iff.mp hf
    obtain ⟨bound, hbo, rfl⟩ := bindLogical_bound (fun ch hc _ hb => ih ch hc (ha ch hc) hb) hbi
    rw [filterEval, evalWith, PlannedIcebergNode.evalAll_eq]
    have hbo : List.Forall₂ (fun truth p => Selects api sets p row truth !neg)
      (c.map (filterEval vs row)) bound := List.forall₂_map_left_iff.mpr hbo
    -- a negated AND is bound as an OR and the other way round
    cases neg with
    | false =>
      first
      | exact foldl_and_selects laws hbo all_eq_true
      | exact foldl_or_selects laws hbo any_eq_true
    | true =>
      first
      | exact foldl_or_selects laws hbo all_eq_false
      | exact foldl_and_selects laws hbo any_eq_false

variable {col : PlannedIcebergColumn} {op : PlannedComparisonOperator}

lemma bindDecoded_guarded (laws : api.Laws) {d : BoundComparisonValue}
    (h : bindDecoded api op col d = some p) : p.negatesMatch = false := by
  have haon : ∀ n, (allOrNone col n).negatesMatch = false := by
    intro n
    cases n <;> rfl
  cases d with
  | datum l =>
    cases h
    rfl
  | outsideInteger b =>
    cases h
    exact haon _
  | outsideFinite s =>
    obtain ⟨n, _, rfl⟩ := map_eq_some_iff.mp h
    exact haon n
  | timestamp v =>
    rw [bindDecoded] at h
    unfold TimestampComparison.bind at h
    split at h
    · cases h
      rfl
    · cases op with
      | eq | notEq =>
        obtain ⟨o, _, hr⟩ := bind_eq_some_iff.mp h
        obtain ⟨u, _, hp⟩ := bind_eq_some_iff.mp hr
        cases hp
        first
        | exact laws.negatesMatch_and _ _ rfl rfl
        | exact laws.negatesMatch_or _ _ rfl rfl
      | lt | le | gt | ge =>
        obtain ⟨b, _, rfl⟩ := map_eq_some_iff.mp h
        rfl

variable {t : PlannedValueType}

lemma bindComparison_guarded (laws : api.Laws) {v : RuntimeValue}
    (h : bindComparison api op col t v neg = .ok (some p)) : p.negatesMatch = false := by
  obtain ⟨s, _, hr⟩ := bind_eq_ok h
  cases s with
  | none =>
    cases hr
    rfl
  | some a =>
    obtain ⟨d, _, hb⟩ := bind_eq_ok hr
    obtain ⟨bound, _, hbi⟩ := bind_eq_some_iff.mp (Except.ok.inj hb)
    exact bindDecoded_guarded laws hbi

lemma bindStartsWith_guarded {r : RuntimeValue}
    (h : bindStartsWith api col r false = .ok (some p)) : p.negatesMatch = false := by
  obtain ⟨s, _, hr⟩ := bind_eq_ok h
  cases s with
  | none =>
    cases hr
    rfl
  | some a =>
    obtain ⟨d, _, hb⟩ := bind_eq_ok hr
    split at hb
    next =>
      cases hb
      rfl
    next => cases hb

lemma bindInSet_guarded {set : RuntimeValue} (h : bindInSet col t set = .ok (some p)) :
    p.negatesMatch = false := by
  unfold bindInSet at h
  split at h
  next =>
    cases h
    rfl
  next =>
    obtain ⟨r, _, hp⟩ := bind_eq_ok h
    cases r <;> cases hp <;> rfl
  next => cases h

lemma foldl_guarded (laws : api.Laws) (kind : LogicalKind) {s : Predicate}
    (hs : s.negatesMatch = false) (hb : ∀ p ∈ bound, p.negatesMatch = false) :
    (bound.foldl (kind.combine api) s).negatesMatch = false := by
  induction bound generalizing s with
  | nil => exact hs
  | cons f r ih =>
    obtain ⟨hf, hr⟩ := List.forall_mem_cons.mp hb
    refine ih ?_ hr
    cases kind with
    | and => exact laws.negatesMatch_and _ _ hs hf
    | or => exact laws.negatesMatch_or _ _ hs hf

lemma bindLogical_guarded (laws : api.Laws)
    (hc : ∀ c ∈ cs, ∀ q, bindNode api vs c neg = .ok (some q) → q.negatesMatch = false)
    (h : bindLogical api vs kind neg cs kind.start = .ok (some p)) : p.negatesMatch = false := by
  obtain ⟨bound, hb, rfl⟩ := bindLogical_bound hc h
  refine foldl_guarded laws kind (by cases kind <;> rfl) ?_
  clear h hc
  induction hb with
  | nil => exact fun _ h => nomatch h
  | cons hh _ ih => exact List.forall_mem_cons.mpr ⟨hh, ih⟩

lemma bindNode_guarded (laws : api.Laws) (node : PlannedIcebergNode)
    (hf : node.Faithful sch sets neg) (hbi : bindNode api vs node neg = .ok (some p)) :
    p.negatesMatch = false := by
  induction node using tree_induction generalizing neg p with
  | not c ih => exact ih hf hbi
  | and ch ih | or ch ih =>
    exact bindLogical_guarded laws (fun c hc _ hb => ih c hc (faithfulAll_iff.mp hf c hc) hb) hbi
  | leaf node hl =>
    cases node with
    | and | or | not => cases hl
    | comparison o col v valueType => exact bindComparison_guarded laws hbi
    | startsWith col r =>
      obtain ⟨rfl, -⟩ := hf
      exact bindStartsWith_guarded hbi
    | inSet col set valueType => exact bindInSet_guarded hbi
    | booleanTest kind col =>
      cases hbi
      cases neg <;> cases kind <;>
        first | rfl | exact laws.negatesMatch_or _ _ rfl rfl
    | isNan col | isNotNan col =>
      cases hbi
      cases neg <;> first | rfl | exact laws.negatesMatch_and _ _ rfl rfl
    | alwaysTrue | alwaysFalse | isNull col | isNotNull col =>
      cases hbi
      cases neg <;> rfl

end Trees

end LagoDB.Iceberg
