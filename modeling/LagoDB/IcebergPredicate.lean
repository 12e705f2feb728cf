import LagoDB.NumericCodec
import LagoDB.PredicatePlan

/-!
# Iceberg predicates

Three kinds of values meet in a pushed filter: what PostgreSQL compares, what a
runtime slot holds, and what an Iceberg file stores. Planned predicates name
columns by field id and values by slot. Binding reads the slots and emits a
native predicate for iceberg-lite. How iceberg-lite evaluates one on the rows of a
data file is not part of the repository: it enters as a parameter, and
`PredicateApi.Laws` says what is documented of it.
-/
namespace LagoDB.Iceberg

open SqlLogic NumericCodec

/-! ## SQL values -/

abbrev Bytes := List UInt8

/-- `memcmp`, then the shorter one first. -/
def byteOrder : Bytes → Bytes → Ordering := List.compareLex compare

/-- Values by the domain they are compared in: dates, times and timestamps are
integers in PostgreSQL's own units, `uuid` and `bytea` are bytes. -/
inductive SqlValue where
  | boolean (value : Bool)
  | integral (value : ℤ)
  | number (value : NumericValue)
  | text (bytes : Bytes)
  | binary (bytes : Bytes)
  | nested
  deriving DecidableEq

/-- The order of one comparison; text follows the collation. -/
def SqlValue.order (collation : Bytes → Bytes → Ordering) : SqlValue → SqlValue → Option Ordering
  | .boolean a, .boolean b => some (compare a b)
  | .integral a, .integral b => some (compare a b)
  | .number a, .number b => some (a.order b)
  | .text a, .text b => some (collation a b)
  | .binary a, .binary b => some (byteOrder a b)
  | _, _ => none

inductive PgComparisonKind where
  | equal
  | notEqual
  | less
  | lessEqual
  | greater
  | greaterEqual
  deriving DecidableEq

def PgComparisonKind.holds : PgComparisonKind → Ordering → Bool
  | .equal, order => order == .eq
  | .notEqual, order => order != .eq
  | .less, order => order == .lt
  | .lessEqual, order => order != .gt
  | .greater, order => order == .gt
  | .greaterEqual, order => order != .lt

def PgComparisonKind.truth (kind : PgComparisonKind) (collation : Bytes → Bytes → Ordering)
    (left right : Option SqlValue) : Truth := do
  let a ← left
  let b ← right
  let order ← a.order collation b
  pure (kind.holds order)

/-! ## Runtime values -/

/-- A non-NULL PostgreSQL datum as its type decodes it. -/
inductive PgDatum where
  | boolean (value : Bool)
  | integral (value : ℤ)
  | float (value : NumericValue)
  | numeric (value : PgNumeric)
  | text (bytes : Bytes)
  | binary (bytes : Bytes)
  deriving DecidableEq

def PgDatum.toSql : PgDatum → SqlValue
  | .boolean value => .boolean value
  | .integral value => .integral value
  | .float value => .number value
  | .numeric value => .number value.value
  | .text bytes => .text bytes
  | .binary bytes => .binary bytes

inductive TypeOid where
  | bool
  | int2
  | int4
  | int8
  | float4
  | float8
  | numeric
  | date
  | time
  | timestamp
  | timestamptz
  | text
  | varchar
  | bpchar
  | uuid
  | bytea
  | array (element : TypeOid)
  | other (oid : ℕ)
  deriving DecidableEq

/-- Collation 0 is `InvalidOid`. -/
structure ExprType where
  typeOid : TypeOid
  typmod : ℤ
  collation : ℕ
  deriving DecidableEq

inductive RuntimeValueSource where
  | constant
  | externalParam
  | execParam
  | outerValue
  deriving DecidableEq

def RuntimeValueSource.isRescanStable : RuntimeValueSource → Bool
  | .constant | .externalParam => true
  | .execParam | .outerValue => false

structure RuntimeValueSpec where
  valueType : ExprType
  sourceKind : RuntimeValueSource
  deriving DecidableEq

def RuntimeValueSpec.arrayElement (spec : RuntimeValueSpec) : Option RuntimeValueSpec :=
  match spec.valueType.typeOid with
  | .array element => some { spec with valueType := { spec.valueType with typeOid := element } }
  | _ => none

inductive RuntimeDatum where
  | scalar (datum : PgDatum)
  | array (elements : List (Option PgDatum))
  deriving DecidableEq

/-- A bound slot; no datum is NULL. -/
structure RuntimeValue where
  datum : Option RuntimeDatum
  metadata : RuntimeValueSpec
  deriving DecidableEq

abbrev RuntimeValueBindings := ℕ → RuntimeValue

def RuntimeValue.toSql (value : RuntimeValue) : Option SqlValue :=
  match value.datum with
  | none => none
  | some (.scalar datum) => some datum.toSql
  | some (.array _) => some .nested

/-! ## Stored values -/

inductive IcebergType where
  | boolean
  | int
  | long
  | float
  | double
  | decimal (precision scale : ℕ)
  | date
  | time
  | timestamp
  | timestamptz
  | timestampNs
  | timestamptzNs
  | string
  | uuid
  | fixed (width : ℕ)
  | binary
  /-- Lists, structs and maps. -/
  | nested
  deriving DecidableEq

/-- Dates and timestamps count from the Unix epoch. -/
inductive Datum where
  | bool (value : Bool)
  | int (value : ℤ)
  | long (value : ℤ)
  | float (value : NumericValue)
  | double (value : NumericValue)
  | decimal (unscaled : ℤ) (precision scale : ℕ)
  | date (days : ℤ)
  | time (micros : ℤ)
  | timestamp (micros : ℤ)
  | timestamptz (micros : ℤ)
  | timestampNs (nanos : ℤ)
  | timestamptzNs (nanos : ℤ)
  | string (bytes : Bytes)
  | uuid (bytes : Bytes)
  | fixed (bytes : Bytes)
  | binary (bytes : Bytes)
  | nested
  deriving DecidableEq

def pgEpochDaysDiff : ℤ := 10957

def pgEpochUsecsDiff : ℤ := 946684800000000

namespace Datum

def type : Datum → IcebergType
  | .bool _ => .boolean
  | .int _ => .int
  | .long _ => .long
  | .float _ => .float
  | .double _ => .double
  | .decimal _ precision scale => .decimal precision scale
  | .date _ => .date
  | .time _ => .time
  | .timestamp _ => .timestamp
  | .timestamptz _ => .timestamptz
  | .timestampNs _ => .timestampNs
  | .timestamptzNs _ => .timestamptzNs
  | .string _ => .string
  | .uuid _ => .uuid
  | .fixed bytes => .fixed bytes.length
  | .binary _ => .binary
  | .nested => .nested

/-- What a scan hands to PostgreSQL; nanoseconds are floored. -/
def read : Datum → SqlValue
  | .bool value => .boolean value
  | .int value => .integral value
  | .long value => .integral value
  | .float value => .number value
  | .double value => .number value
  | .decimal unscaled _ scale => .number (.finite (unscaled / 10 ^ scale))
  | .date days => .integral (days - pgEpochDaysDiff)
  | .time micros => .integral micros
  | .timestamp micros => .integral (micros - pgEpochUsecsDiff)
  | .timestamptz micros => .integral (micros - pgEpochUsecsDiff)
  | .timestampNs nanos => .integral (nanos / 1000 - pgEpochUsecsDiff)
  | .timestamptzNs nanos => .integral (nanos / 1000 - pgEpochUsecsDiff)
  | .string bytes => .text bytes
  | .uuid bytes => .binary bytes
  | .fixed bytes => .binary bytes
  | .binary bytes => .binary bytes
  | .nested => .nested

/-- Values of one type only; strings compare as UTF-8 bytes. -/
def order : Datum → Datum → Option Ordering
  | .bool a, .bool b => some (compare a b)
  | .int a, .int b => some (compare a b)
  | .long a, .long b => some (compare a b)
  | .decimal a _ scale, .decimal b _ otherScale =>
    if scale = otherScale then some (compare a b) else none
  | .date a, .date b => some (compare a b)
  | .time a, .time b => some (compare a b)
  | .timestamp a, .timestamp b => some (compare a b)
  | .timestamptz a, .timestamptz b => some (compare a b)
  | .timestampNs a, .timestampNs b => some (compare a b)
  | .timestamptzNs a, .timestamptzNs b => some (compare a b)
  | .string a, .string b => some (byteOrder a b)
  | .uuid a, .uuid b => some (byteOrder a b)
  | .fixed a, .fixed b => some (byteOrder a b)
  | .binary a, .binary b => some (byteOrder a b)
  | _, _ => none

def isNan : Datum → Bool
  | .float .nan | .double .nan => true
  | _ => false

def startsWith : Datum → Datum → Bool
  | .string bytes, .string pre => pre.isPrefixOf bytes
  | _, _ => false

/-- An `int` is 32 bits wide. -/
def inRange : Datum → Prop
  | .int value => -2 ^ 31 ≤ value ∧ value < 2 ^ 31
  | _ => True

end Datum

structure Field where
  id : ℤ
  name : String
  fieldType : IcebergType
  deriving DecidableEq

structure Schema where
  fields : List Field
  nodup : (fields.map Field.id).Nodup

namespace Schema

def fieldByName (schema : Schema) (name : String) : Option Field :=
  schema.fields.find? (·.name == name)

def fieldById (schema : Schema) (id : ℤ) : Option Field :=
  schema.fields.find? (·.id == id)

end Schema

/-- One row as a scan reads it, by field id; `none` is NULL. `present` tells the columns
of the row's data file. One that the file lacks reads as NULL: it was added later without
an initial default, and no identity partition value stands for it. -/
structure Row where
  value : ℤ → Option Datum
  present : ℤ → Bool
  absent : ∀ id, present id = false → value id = none

instance : CoeFun Row fun _ => ℤ → Option Datum := ⟨Row.value⟩

/-- Every stored value is of its field's type. -/
def Schema.Stores (schema : Schema) (row : Row) : Prop :=
  ∀ field ∈ schema.fields, ∀ datum, row field.id = some datum →
    datum.type = field.fieldType ∧ datum.inRange

/-! ## Native predicates -/

structure Reference where
  name : String
  fieldId : ℤ
  deriving DecidableEq

inductive UnaryOperator where
  | isNull
  | notNull
  | isNan
  | notNan
  deriving DecidableEq

inductive BinaryOperator where
  | eq
  | notEq
  | lessThan
  | lessThanOrEq
  | greaterThan
  | greaterThanOrEq
  | startsWith
  deriving DecidableEq

inductive Predicate where
  | alwaysTrue
  | alwaysFalse
  | and (left right : Predicate)
  | or (left right : Predicate)
  | not (child : Predicate)
  | unary (operator : UnaryOperator) (term : Reference)
  | binary (operator : BinaryOperator) (term : Reference) (literal : Datum)
  | isIn (term : Reference) (literals : List Datum)

def UnaryOperator.test : UnaryOperator → Option Datum → Bool
  | .isNull, value => value.isNone
  | .notNull, value => value.isSome
  | .isNan, value => value.any Datum.isNan
  | .notNan, value => !value.any Datum.isNan

def BinaryOperator.test : BinaryOperator → Datum → Datum → Bool
  | .eq, value, literal => value.order literal == some .eq
  | .notEq, value, literal => (value.order literal).any (· != .eq)
  | .lessThan, value, literal => value.order literal == some .lt
  | .lessThanOrEq, value, literal => (value.order literal).any (· != .gt)
  | .greaterThan, value, literal => value.order literal == some .gt
  | .greaterThanOrEq, value, literal => (value.order literal).any (· != .lt)
  | .startsWith, value, literal => value.startsWith literal

def UnaryOperator.opposite : UnaryOperator → UnaryOperator
  | .isNull => .notNull
  | .notNull => .isNull
  | .isNan => .notNan
  | .notNan => .isNan

/-- The opposite comparison; a prefix test has none that SQL would accept. -/
def BinaryOperator.opposite : BinaryOperator → Option BinaryOperator
  | .eq => some .notEq
  | .notEq => some .eq
  | .lessThan => some .greaterThanOrEq
  | .lessThanOrEq => some .greaterThan
  | .greaterThan => some .lessThanOrEq
  | .greaterThanOrEq => some .lessThan
  | .startsWith => none

/-- The tests built with `build_always_true` when the file lacks the column. -/
def BinaryOperator.admitsAbsent : BinaryOperator → Bool
  | .lessThan | .lessThanOrEq => true
  | _ => false

namespace Predicate

/-- A set or a prefix test stands somewhere in the tree. -/
def mentionsMatch : Predicate → Bool
  | .and left right | .or left right => left.mentionsMatch || right.mentionsMatch
  | .not child => child.mentionsMatch
  | .binary .startsWith _ _ => true
  | .isIn _ _ => true
  | _ => false

/-- A set or a prefix test stands under a NOT. -/
def negatesMatch : Predicate → Bool
  | .and left right | .or left right => left.negatesMatch || right.negatesMatch
  | .not child => child.mentionsMatch
  | _ => false

end Predicate

/-- iceberg-lite: its constructors, which may fold constants, and its row filter. -/
structure PredicateApi where
  and : Predicate → Predicate → Predicate
  or : Predicate → Predicate → Predicate
  not : Predicate → Predicate
  selects : Predicate → Row → Bool

/-- What is documented of iceberg-lite. NOT is carried to the tests and turns each into
its opposite; null tests look at validity only, and NotNan admits NULL; a stored NULL
fails comparisons and prefix tests; a column the file lacks passes `<` and `<=` and is
NULL to the other tests. -/
structure PredicateApi.Laws (api : PredicateApi) : Prop where
  always_true : ∀ row, api.selects .alwaysTrue row = true
  always_false : ∀ row, api.selects .alwaysFalse row = false
  and : ∀ left right row,
    api.selects (api.and left right) row = (api.selects left row && api.selects right row)
  or : ∀ left right row,
    api.selects (api.or left right) row = (api.selects left row || api.selects right row)
  not_true : ∀ row, api.selects (api.not .alwaysTrue) row = false
  not_false : ∀ row, api.selects (api.not .alwaysFalse) row = true
  not_and : ∀ left right row, api.selects (api.not (api.and left right)) row =
    (api.selects (api.not left) row || api.selects (api.not right) row)
  not_or : ∀ left right row, api.selects (api.not (api.or left right)) row =
    (api.selects (api.not left) row && api.selects (api.not right) row)
  not_not : ∀ child row, api.selects (api.not (api.not child)) row = api.selects child row
  not_unary : ∀ operator term row, api.selects (api.not (.unary operator term)) row =
    api.selects (.unary operator.opposite term) row
  not_binary : ∀ operator other term literal row, operator.opposite = some other →
    api.selects (api.not (.binary operator term literal)) row =
      api.selects (.binary other term literal) row
  unary : ∀ operator term row,
    api.selects (.unary operator term) row = operator.test (row term.fieldId)
  binary_value : ∀ operator term literal (row : Row) value, row term.fieldId = some value →
    value.type = literal.type →
      api.selects (.binary operator term literal) row = operator.test value literal
  binary_null : ∀ operator term literal (row : Row), row.present term.fieldId = true →
    row term.fieldId = none → api.selects (.binary operator term literal) row = false
  binary_absent : ∀ operator term literal (row : Row), row.present term.fieldId = false →
    api.selects (.binary operator term literal) row = operator.admitsAbsent
  isIn_mem : ∀ term literals (row : Row) value, ∀ literal ∈ literals,
    row term.fieldId = some value → value.order literal = some .eq →
      api.selects (.isIn term literals) row = true
  negatesMatch_and : ∀ left right, left.negatesMatch = false → right.negatesMatch = false →
    (api.and left right).negatesMatch = false
  negatesMatch_or : ∀ left right, left.negatesMatch = false → right.negatesMatch = false →
    (api.or left right).negatesMatch = false

end LagoDB.Iceberg
