import LagoDB.PredicateBinding

/-!
# What decoded slots compare to

A slot decodes to a literal of the column's own type, to a position outside
everything the column can hold, or to a timestamp. In each case the bound
comparison orders a stored value against the slot as PostgreSQL does, whatever
units and scales lie between the two. A column that the data file lacks is another
matter: there the row filter answers as though the column lay below every literal.
-/
namespace LagoDB.Iceberg

open SqlLogic NumericCodec ExceptLoop Option PgComparisonKind Int32OutOfRange Truth SqlValue
open PlannedIcebergColumn PlannedComparisonOperator TimestampComparison

/-! ## Orders -/

attribute [local simp] holds

lemma holds_compare {α : Type} [LinearOrder α] (k : PgComparisonKind) (a b : α) :
    k.holds (compare a b) = true ↔
      match k with
      | .equal => a = b
      | .notEqual => a ≠ b
      | .less => a < b
      | .lessEqual => a ≤ b
      | .greater => b < a
      | .greaterEqual => b ≤ a := by
  rcases lt_trichotomy a b with h | h | h
  · have hc : compare a b = .lt := compare_lt_iff_lt.mpr h
    cases k <;> simp [hc, h, h.le, h.not_ge, h.ne, h.not_gt]
  · cases k <;> simp [h]
  · have hc : compare a b = .gt := compare_gt_iff_gt.mpr h
    cases k <;> simp [hc, h, h.le, h.not_ge, h.ne', h.not_gt]

def PgComparisonKind.toBinary : PgComparisonKind → BinaryOperator
  | .equal => .eq
  | .notEqual => .notEq
  | .less => .lessThan
  | .lessEqual => .lessThanOrEq
  | .greater => .greaterThan
  | .greaterEqual => .greaterThanOrEq

def PgComparisonKind.negated : PgComparisonKind → PgComparisonKind
  | .equal => .notEqual
  | .notEqual => .equal
  | .less => .greaterEqual
  | .lessEqual => .greater
  | .greater => .lessEqual
  | .greaterEqual => .less

/-- A literal against a column that the file lacks, as the row filter has it: ordered
tests find the column below the literal, equality tests find it NULL. -/
def PgComparisonKind.absentTruth : PgComparisonKind → Truth
  | .less | .lessEqual => some true
  | .greater | .greaterEqual => some false
  | .equal | .notEqual => none

namespace PgComparisonKind

variable (k : PgComparisonKind)

lemma negated_holds (o : Ordering) : k.negated.holds o = !k.holds o := by
  cases k <;> cases o <;> rfl

lemma negated_absentTruth : k.negated.absentTruth = not k.absentTruth := by
  cases k <;> rfl

lemma negated_truth (left right : Option SqlValue) :
    k.negated.truth byteOrder left right = not (k.truth byteOrder left right) := by
  cases left with
  | none => rfl
  | some a =>
    cases right with
    | none => rfl
    | some b =>
      cases ho : a.order byteOrder b with
      | none => simp [truth, ho, Truth.not]
      | some o =>
        simp only [truth, ho, bind_eq_bind, bind_some, negated_holds]
        rfl

lemma opposite_toBinary : k.toBinary.opposite = some k.negated.toBinary := by
  cases k <;> rfl

lemma admitsAbsent_toBinary : k.toBinary.admitsAbsent = (k.absentTruth == some true) := by
  cases k <;> rfl

lemma toBinary_test {s l : Datum} {o : Ordering} (h : s.order l = some o) :
    k.toBinary.test s l = k.holds o := by
  cases k <;> cases o <;> simp [toBinary, BinaryOperator.test, h]

end PgComparisonKind

lemma kind_toBinary (op : PlannedComparisonOperator) : op.kind.toBinary = op.toBinary := by
  cases op <;> rfl

lemma kind_negated (op : PlannedComparisonOperator) : op.negated.kind = op.kind.negated := by
  cases op <;> rfl

lemma compare_sub_right (a b c : ℤ) : compare (a - c) b = compare a (b + c) := by
  rcases lt_trichotomy a (b + c) with h | h | h
  · rw [compare_lt_iff_lt.mpr h, compare_lt_iff_lt]
    omega
  · rw [compare_eq_iff_eq.mpr h, compare_eq_iff_eq]
    omega
  · rw [compare_gt_iff_gt.mpr h, compare_gt_iff_gt]
    omega

lemma compare_scaled (a b : ℤ) (s : ℕ) : compare ((a : ℚ) / 10 ^ s) (b / 10 ^ s) = compare a b := by
  have hpos : (0 : ℚ) < 10 ^ s := by positivity
  rcases lt_trichotomy a b with h | h | h
  · rw [compare_lt_iff_lt.mpr h, compare_lt_iff_lt, div_lt_div_iff_of_pos_right hpos]
    exact_mod_cast h
  · rw [compare_eq_iff_eq.mpr h, compare_eq_iff_eq, h]
  · rw [compare_gt_iff_gt.mpr h, compare_gt_iff_gt, div_lt_div_iff_of_pos_right hpos]
    exact_mod_cast h

/-! ## Decoded values -/

/-- The column type a planned value is compared against. -/
def PlannedValueType.storage : PlannedValueType → IcebergType
  | .boolean => .boolean
  | .uuid => .uuid
  | .binary => .binary
  | .fixedBinary width => .fixed width
  | .int2ToLong | .int4ToLong | .int8 => .long
  | .int2 | .int4 | .int8ToInt => .int
  | .date => .date
  | .timestamp .microseconds => .timestamp
  | .timestamp .nanoseconds => .timestampNs
  | .timestamptz .microseconds => .timestamptz
  | .timestamptz .nanoseconds => .timestamptzNs
  | .string => .string
  | .decimal128 semantics => .decimal semantics.precision semantics.scale

section Decoded

variable {tid : TypeOid} {y : PlannedValueType} {d : PgDatum} {bd : BoundComparisonValue}
  {t : Datum}

inductive Decodes : PlannedValueType → PgDatum → BoundComparisonValue → Prop where
  | boolean (value : Bool) : Decodes .boolean (.boolean value) (.datum (.bool value))
  | uuid (bytes : Bytes) : Decodes .uuid (.binary bytes) (.datum (.uuid bytes))
  | binary (bytes : Bytes) : Decodes .binary (.binary bytes) (.datum (.binary bytes))
  | fixed (bytes : Bytes) :
    Decodes (.fixedBinary bytes.length) (.binary bytes) (.datum (.fixed bytes))
  | string (bytes : Bytes) : Decodes .string (.text bytes) (.datum (.string bytes))
  | int {valueType : PlannedValueType} (value : ℤ) (h : valueType.storage = .int) :
    Decodes valueType (.integral value) (.datum (.int value))
  | long {valueType : PlannedValueType} (value : ℤ) (h : valueType.storage = .long) :
    Decodes valueType (.integral value) (.datum (.long value))
  | outsideInteger {value : ℤ} {boundary : Int32OutOfRange}
      (h : narrow value = .error boundary) :
    Decodes .int8ToInt (.integral value) (.outsideInteger boundary)
  | date {days unixDays : ℤ} (h : pgEpochDaysToUnixDays days = some unixDays) :
    Decodes .date (.integral days) (.datum (.date unixDays))
  | timestamp {micros unixMicros : ℤ} (precision : TimestampPrecision)
      (h : pgEpochMicrosToUnixMicros micros = some unixMicros) :
    Decodes (.timestamp precision) (.integral micros) (.timestamp ⟨unixMicros, precision, false⟩)
  | timestamptz {micros unixMicros : ℤ} (precision : TimestampPrecision)
      (h : pgEpochMicrosToUnixMicros micros = some unixMicros) :
    Decodes (.timestamptz precision) (.integral micros) (.timestamp ⟨unixMicros, precision, true⟩)
  | decimal {semantics : Decimal128NumericCodec} {numeric : PgNumeric} {coefficient : ℤ}
      (h : semantics.encodeComparisonDatum numeric = .ok (.finite coefficient)) :
    Decodes (.decimal128 semantics) (.numeric numeric)
      (.datum (.decimal coefficient semantics.precision semantics.scale))
  | special {semantics : Decimal128NumericCodec} {numeric : PgNumeric}
      {special : Decimal128ComparisonValue}
      (h : semantics.encodeComparisonDatum numeric = .ok special)
      (hspecial : ∀ coefficient, special ≠ .finite coefficient) :
    Decodes (.decimal128 semantics) (.numeric numeric) (.outsideFinite special)

lemma decodeBoolean_eq {v : Bool} (h : decodeBoolean tid d = .ok v) : d = .boolean v := by
  cases d <;> cases h
  rfl

lemma decodeIntegral_eq {v : ℤ} (h : decodeIntegral tid d = .ok v) : d = .integral v := by
  cases d <;> cases h
  rfl

lemma decodeText_eq {bs : Bytes} (h : decodeText tid d = .ok bs) : d = .text bs := by
  cases d <;> cases h
  rfl

lemma decodeBinary_eq {bs : Bytes} (h : decodeBinary tid d = .ok bs) : d = .binary bs := by
  cases d <;> cases h
  rfl

lemma decodeNumeric_eq {v : PgNumeric} (h : decodeNumeric tid d = .ok v) : d = .numeric v := by
  cases d <;> cases h
  rfl

lemma fromPgMicros_eq {ms : ℤ} {p : TimestampPrecision} {z : Bool} {v : TimestampComparison}
    (h : fromPgMicros ms p z = some v) :
    ∃ us, pgEpochMicrosToUnixMicros ms = some us ∧ v = ⟨us, p, z⟩ := by
  unfold fromPgMicros at h
  split_ifs at h
  obtain ⟨us, hu, hv⟩ := map_eq_some_iff.mp h
  exact ⟨us, hu, hv.symm⟩

lemma decodeValue_decodes (h : decodeValue tid y d = .ok (some bd)) : Decodes y d bd := by
  cases y with
  | boolean =>
    obtain ⟨v, hv, hb⟩ := map_eq_ok h
    cases hb
    exact decodeBoolean_eq hv ▸ .boolean v
  | uuid | binary =>
    obtain ⟨b, hby, hb⟩ := map_eq_ok h
    cases hb
    rw [decodeBinary_eq hby]
    constructor
  | fixedBinary w =>
    obtain ⟨b, hby, hb⟩ := map_eq_ok h
    unfold decodedFixed at hb
    split_ifs at hb with hw
    cases hb
    obtain rfl : b.length = w := not_not.mp hw
    exact decodeBinary_eq hby ▸ .fixed b
  | int2ToLong | int4ToLong | int8 =>
    obtain ⟨v, hv, hb⟩ := map_eq_ok h
    cases hb
    exact decodeIntegral_eq hv ▸ .long v rfl
  | int2 | int4 =>
    obtain ⟨v, hv, hb⟩ := map_eq_ok h
    cases hb
    exact decodeIntegral_eq hv ▸ .int v rfl
  | int8ToInt =>
    obtain ⟨v, hv, hb⟩ := map_eq_ok h
    rw [decodeIntegral_eq hv]
    unfold narrowed at hb
    split at hb
    next i hi =>
      cases hb
      unfold Int32OutOfRange.narrow at hi
      split_ifs at hi
      cases hi
      exact .int v rfl
    next o hbo =>
      cases hb
      exact .outsideInteger hbo
  | date =>
    obtain ⟨ds, hd, hb⟩ := map_eq_ok h
    unfold decodedDate at hb
    split_ifs at hb
    obtain ⟨ud, hu, hs⟩ := map_eq_some_iff.mp hb
    cases hs
    exact decodeIntegral_eq hd ▸ .date hu
  | timestamp p | timestamptz p =>
    obtain ⟨m, hm, hb⟩ := map_eq_ok h
    obtain ⟨v, hv, hs⟩ := map_eq_some_iff.mp hb
    obtain ⟨um, hu, rfl⟩ := fromPgMicros_eq hv
    cases hs
    first
    | exact decodeIntegral_eq hm ▸ .timestamp p hu
    | exact decodeIntegral_eq hm ▸ .timestamptz p hu
  | string =>
    obtain ⟨b, hby, hb⟩ := map_eq_ok h
    cases hb
    exact decodeText_eq hby ▸ .string b
  | decimal128 ss =>
    obtain ⟨n, hn, he⟩ := bind_eq_ok h
    rw [decodeNumeric_eq hn]
    split at he
    next v hv =>
      cases v with
      | finite c =>
        cases he
        exact .decimal hv
      | _ =>
        cases he
        exact .special hv fun _ hs => nomatch hs
    next => cases he

end Decoded

/-! ## Comparisons -/

lemma Row.present_of_some {row : Row} {id : ℤ} {s : Datum} (h : row id = some s) :
    row.present id = true := by
  by_contra hp
  rw [row.absent id (Bool.eq_false_iff.mpr hp)] at h
  cases h

variable (column : PlannedIcebergColumn)

def PlannedIcebergColumn.value (row : Row) : Option SqlValue :=
  (row column.fieldId).map Datum.read

/-- What the row filter makes of a comparison, `absent` being its answer for a file
without the column. -/
def PlannedIcebergColumn.filterTruth (kind : PgComparisonKind)
    (row : Row) (absent : Truth) (value : Option SqlValue) : Truth :=
  if row.present column.fieldId then kind.truth byteOrder (column.value row) value else absent

lemma PlannedIcebergColumn.filterTruth_negated
    (k : PgComparisonKind) (row : Row) (a : Truth) (v : Option SqlValue) :
    column.filterTruth k.negated row (not a) v = not (column.filterTruth k row a v) := by
  unfold filterTruth
  split_ifs
  · exact k.negated_truth _ _
  · rfl

/-- The literal orders stored values of the column's type as the SQL value does. -/
def PlannedIcebergColumn.Orders (row : Row) (literal : Datum)
    (value : SqlValue) : Prop :=
  ∀ stored, row column.fieldId = some stored → stored.type = literal.type ∧ ∃ order,
    stored.order literal = some order ∧ stored.read.order byteOrder value = some order

section Comparison

variable {api : PredicateApi} {op : PlannedComparisonOperator} {k : PgComparisonKind}
  {c : PlannedIcebergColumn} {r : Predicate} {row : Row} {t : Datum}

/-- On a stored value the predicate answers as PostgreSQL does. -/
def Answers (api : PredicateApi) (predicate : Predicate) (row : Row) (stored : Datum)
    (value : SqlValue) (kind : PgComparisonKind) : Prop :=
  ∃ order, stored.read.order byteOrder value = some order ∧
    api.selects predicate row = kind.holds order

variable {l : Datum} {ord : Ordering} (laws : api.Laws)

include laws

lemma comparison_none (n : BinaryOperator) (hrow : row c.fieldId = none) :
    api.selects (c.comparison n l) row = (!row.present c.fieldId && n.admitsAbsent) := by
  cases hp : row.present c.fieldId with
  | true => exact laws.binary_null _ _ _ _ hp hrow
  | false => exact laws.binary_absent _ _ _ _ hp

section

variable (hrow : row c.fieldId = some t)

include hrow

lemma comparison_value (ht : t.type = l.type) (hl : t.order l = some ord) :
    api.selects (c.comparison k.toBinary l) row = k.holds ord := by
  rw [← k.toBinary_test hl]
  exact laws.binary_value _ _ _ _ _ hrow ht

lemma literal_answers {v : SqlValue} (ht : t.type = l.type) (hl : t.order l = some ord)
    (hv : t.read.order byteOrder v = some ord) :
    Answers api (c.comparison op.toBinary l) row t v op.kind := by
  refine ⟨ord, hv, ?_⟩
  rw [← kind_toBinary]
  exact comparison_value laws hrow ht hl

lemma allOrNone_answers {v : SqlValue} {n : Bool} (hv : t.read.order byteOrder v = some ord)
    (ha : n = op.kind.holds ord) :
    Answers api (IcebergFilterBinder.allOrNone c n) row t v op.kind := by
  refine ⟨ord, hv, ?_⟩
  rw [← ha]
  cases n with
  | false => exact laws.always_false row
  | true =>
    simp [IcebergFilterBinder.allOrNone, nullTest, laws.unary, UnaryOperator.test, reference, hrow]

end

/-- A literal comparison, on every row. -/
lemma comparison_selects {v : SqlValue} (h : c.Orders row l v) :
    api.selects (c.comparison k.toBinary l) row = true ↔
      c.filterTruth k row k.absentTruth (some v) = some true := by
  unfold filterTruth
  cases hr : row c.fieldId with
  | none =>
    rw [comparison_none laws _ hr, k.admitsAbsent_toBinary]
    cases hp : row.present c.fieldId <;> simp [value, hr, truth]
  | some s =>
    obtain ⟨ht, ord, hl, hv⟩ := h s hr
    rw [comparison_value laws hr ht hl, if_pos (Row.present_of_some hr)]
    simp [value, hr, hv, truth]

omit laws

lemma date_order {ds us o : ℤ} (h : pgEpochDaysToUnixDays ds = some us) :
    (Datum.date o).read.order byteOrder (.integral ds) = some (compare o us) := by
  unfold pgEpochDaysToUnixDays checkedInt at h
  split_ifs at h
  rw [Datum.read, order, compare_sub_right, some.inj h]

variable {s : Decimal128NumericCodec} {m : PgNumeric}

lemma encodeComparisonDatum_finite {c : ℤ} (h : s.encodeComparisonDatum m = .ok (.finite c)) :
    m.value = .finite (c / 10 ^ s.scale) := by
  cases m with
  | finite n w d =>
    obtain ⟨r, hr, hs⟩ := map_eq_ok h
    have hc : r = c := Decimal128ComparisonValue.finite.inj hs
    rw [hc] at hr
    exact numericSendToI128_eq hr
  | _ => cases h

lemma decimal_order {c u : ℤ} {p : ℕ} (h : s.encodeComparisonDatum m = .ok (.finite c)) :
    (Datum.decimal u p s.scale).read.order byteOrder (.number m.value) = some (compare u c) := by
  rw [Datum.read, order, encodeComparisonDatum_finite h, NumericValue.order, compare_scaled]

lemma narrow_outside {v o : ℤ} {bd : Int32OutOfRange}
    (h : narrow v = .error bd) (hr : (Datum.int o).inRange) :
    ∃ ord, (Datum.int o).read.order byteOrder (.integral v) = some ord ∧
      ∀ k, bd.comparisonMatchesNonNull k = k.holds ord := by
  obtain ⟨hl, hh⟩ := hr
  unfold Int32OutOfRange.narrow at h
  split_ifs at h with hi hn
  · cases h
    have hc : compare o v = .gt := compare_gt_iff_gt.mpr (by omega)
    refine ⟨.gt, congrArg some hc, fun k => ?_⟩
    cases k <;> rfl
  · cases h
    have hc : compare o v = .lt := compare_lt_iff_lt.mpr (by omega)
    refine ⟨.lt, congrArg some hc, fun k => ?_⟩
    cases k <;> rfl

/-- A special NUMERIC has one position against every finite value. -/
lemma special_order {special : Decimal128ComparisonValue} (t : ℚ)
    (h : s.encodeComparisonDatum m = .ok special) (hs : ∀ c, special ≠ .finite c) :
    ∃ ord, (number (.finite t)).order byteOrder (.number m.value) = some ord ∧
      ∀ k, matchesFiniteColumn special k = some (k.holds ord) := by
  cases m with
  | finite n w d =>
    obtain ⟨r, _, hsa⟩ := map_eq_ok h
    exact absurd hsa.symm (hs r)
  | negativeInfinity =>
    cases h
    exact ⟨.gt, rfl, fun k => by cases k <;> rfl⟩
  | positiveInfinity | nan =>
    cases h
    exact ⟨.lt, rfl, fun k => by cases k <;> rfl⟩

def nanosDatum (withTimezone : Bool) (nanos : ℤ) : Datum :=
  if withTimezone then .timestamptzNs nanos else .timestampNs nanos

variable {v : TimestampComparison}

lemma nanosBoundary_eq {u : Bool} {bd : Datum} (h : v.nanosBoundary u = some bd) :
    bd = nanosDatum v.withTimezone ((v.unixMicros + if u then 1 else 0) * 1000) := by
  obtain ⟨m, hm, hr⟩ := bind_eq_some_iff.mp h
  obtain ⟨nanos, hn, hb⟩ := bind_eq_some_iff.mp hr
  unfold checkedInt at hm hn
  have hm : m = v.unixMicros + if u then 1 else 0 := by
    cases u with
    | false => simpa using hm.symm
    | true =>
      simp only [if_true] at hm ⊢
      split_ifs at hm
      exact (some.inj hm).symm
  split_ifs at hn
  rw [← hm, some.inj hn]
  exact (some.inj hb).symm

lemma nanos_order (z : Bool) (nanos bd : ℤ) :
    (nanosDatum z nanos).type = (nanosDatum z bd).type ∧
      (nanosDatum z nanos).order (nanosDatum z bd) = some (compare nanos bd) := by
  cases z <;> exact ⟨rfl, rfl⟩

variable {nanos : ℤ}

section

variable {z : Bool} {bd : ℤ} (laws : api.Laws) (hrow : row c.fieldId = some (nanosDatum z nanos))

include laws hrow

lemma lessThan_nanos :
    api.selects (c.comparison .lessThan (nanosDatum z bd)) row = true ↔ nanos < bd := by
  obtain ⟨ht, ho⟩ := nanos_order z nanos bd
  have he := @comparison_value _ .less _ _ _ _ _ laws hrow ht ho
  exact he ▸ holds_compare .less nanos bd

lemma greaterThanOrEq_nanos :
    api.selects (c.comparison .greaterThanOrEq (nanosDatum z bd)) row = true ↔ bd ≤ nanos := by
  obtain ⟨ht, ho⟩ := nanos_order z nanos bd
  have he := @comparison_value _ .greaterEqual _ _ _ _ _ laws hrow ht ho
  exact he ▸ holds_compare .greaterEqual nanos bd

end

/-- The interval of a microsecond value is exact for every operator. -/
lemma nanos_eval (laws : api.Laws) (hpr : v.precision = .nanoseconds)
    (hb : v.bind api c op = some r)
    (hrow : row c.fieldId = some (nanosDatum v.withTimezone nanos)) :
    api.selects r row = op.kind.holds (compare (nanos / 1000) v.unixMicros) := by
  rw [Bool.eq_iff_iff, holds_compare]
  unfold TimestampComparison.bind at hb
  rw [hpr] at hb
  cases op with
  | eq | notEq =>
    obtain ⟨l, hl, hr⟩ := bind_eq_some_iff.mp hb
    obtain ⟨u, hu, hp⟩ := bind_eq_some_iff.mp hr
    cases hp
    first
    | rw [laws.and, Bool.and_eq_true]
    | rw [laws.or, Bool.or_eq_true]
    rw [nanosBoundary_eq hl, nanosBoundary_eq hu, lessThan_nanos laws hrow,
      greaterThanOrEq_nanos laws hrow]
    simp only [kind, if_true, Bool.false_eq_true, if_false]
    omega
  | lt | le =>
    obtain ⟨b, hbo, hp⟩ := map_eq_some_iff.mp hb
    rw [← hp, nanosBoundary_eq hbo, lessThan_nanos laws hrow]
    simp only [kind, if_true, Bool.false_eq_true, if_false]
    omega
  | gt | ge =>
    obtain ⟨b, hbo, hp⟩ := map_eq_some_iff.mp hb
    rw [← hp, nanosBoundary_eq hbo, greaterThanOrEq_nanos laws hrow]
    simp only [kind, if_true, Bool.false_eq_true, if_false]
    omega

lemma micros_order {ms us : ℤ} (o : ℤ) (h : pgEpochMicrosToUnixMicros ms = some us) :
    order byteOrder (.integral (o - pgEpochUsecsDiff)) (.integral ms) = some (compare o us) := by
  unfold pgEpochMicrosToUnixMicros checkedInt at h
  split_ifs at h
  rw [order, compare_sub_right, some.inj h]

open IcebergFilterBinder

variable {bd : BoundComparisonValue}

/-- The answer for a file without the column. A nanosecond column lies below the whole
interval of a timestamp, so that even `<>` passes. -/
def BoundComparisonValue.absentTruth (kind : PgComparisonKind) : BoundComparisonValue → Truth
  | .timestamp value =>
    match value.precision with
    | .microseconds => kind.absentTruth
    | .nanoseconds => some (kind.holds .lt)
  | .datum _ => kind.absentTruth
  | .outsideFinite _ | .outsideInteger _ => none

lemma BoundComparisonValue.absentTruth_negated (b : BoundComparisonValue)
    (k : PgComparisonKind) : b.absentTruth k.negated = not (b.absentTruth k) := by
  unfold absentTruth
  cases b with
  | timestamp v =>
    cases hp : v.precision with
    | microseconds => simpa [hp] using k.negated_absentTruth
    | nanoseconds => simpa [hp, Truth.not] using k.negated_holds .lt
  | datum l => exact k.negated_absentTruth
  | outsideFinite | outsideInteger => rfl

/-- A literal has the column's type and orders its values. -/
lemma Decodes.literal {y : PlannedValueType} {d : PgDatum} (h : Decodes y d (.datum l))
    (ht : t.type = y.storage) :
    t.type = l.type ∧ ∃ ord, t.order l = some ord ∧ t.read.order byteOrder d.toSql = some ord := by
  cases h with
  | boolean | uuid | binary | string =>
    cases t <;> cases ht
    exact ⟨rfl, _, rfl, rfl⟩
  | fixed =>
    cases t with
    | fixed b => exact ⟨ht, _, rfl, rfl⟩
    | _ => cases ht
  | int v hs | long v hs =>
    rw [hs] at ht
    cases t <;> cases ht
    exact ⟨rfl, _, rfl, rfl⟩
  | date hd =>
    cases t with
    | date o => exact ⟨rfl, _, rfl, date_order hd⟩
    | _ => cases ht
  | decimal he =>
    cases t with
    | decimal u p s =>
      obtain ⟨rfl, rfl⟩ := IcebergType.decimal.inj ht
      exact ⟨rfl, _, if_pos rfl, decimal_order he⟩
    | _ => cases ht

section

variable (laws : api.Laws)

include laws

/-- A decoded slot is compared as PostgreSQL compares it. -/
lemma Decodes.answers {y : PlannedValueType} {d : PgDatum} (h : Decodes y d bd)
    (hb : bindDecoded api op c bd = some r) (hrow : row c.fieldId = some t)
    (ht : t.type = y.storage) (hr : t.inRange) : Answers api r row t d.toSql op.kind := by
  cases bd with
  | datum l =>
    cases hb
    obtain ⟨hty, ord, hl, hv⟩ := h.literal ht
    exact literal_answers laws hrow hty hl hv
  | outsideInteger b =>
    cases h with
    | outsideInteger hn =>
      cases hb
      cases t with
      | int o =>
        obtain ⟨ord, ho, hk⟩ := narrow_outside hn hr
        exact allOrNone_answers laws hrow ho (hk _)
      | _ => cases ht
  | outsideFinite special =>
    cases h with
    | special he hsp =>
      cases t with
      | decimal u p s =>
        obtain ⟨ord, ho, hk⟩ := special_order (u / 10 ^ s) he hsp
        rw [bindDecoded, hk] at hb
        cases hb
        exact allOrNone_answers laws hrow ho rfl
      | _ => cases ht
  | timestamp v =>
    cases h with
    | timestamp p hm | timestamptz p hm =>
      cases p with
      | microseconds =>
        cases hb
        cases t <;> cases ht
        exact literal_answers laws hrow rfl rfl (micros_order _ hm)
      | nanoseconds =>
        rw [bindDecoded] at hb
        cases t <;> cases ht
        exact ⟨_, micros_order _ hm, nanos_eval laws rfl hb hrow⟩

variable (hrow : row c.fieldId = none)

include hrow

lemma allOrNone_none {n : Bool} : api.selects (allOrNone c n) row = false := by
  cases n with
  | false => exact laws.always_false row
  | true => simp [allOrNone, nullTest, laws.unary, UnaryOperator.test, reference, hrow]

lemma timestamp_none (hb : v.bind api c op = some r) :
    api.selects r row = (!row.present c.fieldId &&
      BoundComparisonValue.absentTruth op.kind (.timestamp v) == some true) := by
  unfold TimestampComparison.bind at hb
  cases hp : v.precision with
  | microseconds =>
    rw [hp] at hb
    cases hb
    simp only [BoundComparisonValue.absentTruth, hp]
    rw [comparison_none laws _ hrow, ← kind_toBinary, admitsAbsent_toBinary]
  | nanoseconds =>
    rw [hp] at hb
    simp only [BoundComparisonValue.absentTruth, hp]
    have hc (n : BinaryOperator) (literal : Datum) := @comparison_none _ c row literal laws n hrow
    cases op with
    | eq | notEq =>
      obtain ⟨l, _, hr⟩ := bind_eq_some_iff.mp hb
      obtain ⟨u, _, hp⟩ := bind_eq_some_iff.mp hr
      rw [← some.inj hp]
      simp [laws.and, laws.or, hc, BinaryOperator.admitsAbsent, kind]
    | lt | le | gt | ge =>
      obtain ⟨b, _, hp⟩ := map_eq_some_iff.mp hb
      rw [← hp, hc]
      rfl

lemma bindDecoded_none (hb : bindDecoded api op c bd = some r) :
    api.selects r row = (!row.present c.fieldId && bd.absentTruth op.kind == some true) := by
  cases bd with
  | timestamp v => exact timestamp_none laws hrow hb
  | datum l =>
    cases hb
    rw [comparison_none laws _ hrow, ← kind_toBinary, admitsAbsent_toBinary]
    rfl
  | outsideFinite s =>
    obtain ⟨n, _, hp⟩ := map_eq_some_iff.mp hb
    rw [← hp, allOrNone_none laws hrow]
    simp [BoundComparisonValue.absentTruth]
  | outsideInteger b =>
    cases hb
    rw [allOrNone_none laws hrow]
    simp [BoundComparisonValue.absentTruth]

end

/-- A bound comparison, on every row of the column's type. -/
lemma Decodes.selects {y : PlannedValueType} {d : PgDatum} (h : Decodes y d bd)
    (laws : api.Laws) (hb : bindDecoded api op c bd = some r)
    (hty : ∀ t, row c.fieldId = some t → t.type = y.storage ∧ t.inRange) :
    api.selects r row = true ↔
      c.filterTruth op.kind row (bd.absentTruth op.kind) (some d.toSql) = some true := by
  unfold filterTruth
  cases hr : row c.fieldId with
  | none =>
    rw [bindDecoded_none laws hr hb]
    cases hp : row.present c.fieldId <;> simp [value, hr, truth]
  | some t =>
    obtain ⟨ht, hra⟩ := hty t hr
    obtain ⟨o, ho, he⟩ := h.answers laws hb hr ht hra
    rw [he, if_pos (Row.present_of_some hr)]
    simp [value, hr, ho, truth]

end Comparison

end LagoDB.Iceberg
