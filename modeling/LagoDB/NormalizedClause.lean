import LagoDB.ExpressionNormalizer

/-!
# What a normalized clause says

A normalized predicate has the truth value of its clause on every row, as long as
each slot holds what its expression evaluates to. Slots are only ever added, so
what holds for the bindings made so far holds for all that come later, and moving
all slots of a predicate by one offset moves the values it reads.
-/
namespace LagoDB.Negotiation

open SqlLogic NumericCodec Pushdown Iceberg Option RuntimeValueExpr PgExpr List PgScalarExprRef
open RelationExpressionNormalizer

variable {Row : Type}

/-! ## The rows of a scan -/

/-- The range table index of the scanned relation and what its rows store. -/
structure ScannedRelation (Row : Type) where
  relid : ℤ
  columns : Row → ℤ → PgValue

def ScannedRelation.scalar (relation : ScannedRelation Row) (values : RuntimeValueBindings)
    (row : Row) : ScalarExpr → PgValue
  | .column column => relation.columns row column.attno
  | .value slot => (values slot).datum

namespace Backend

variable (backend : Backend) (relation : ScannedRelation Row)

def value (env : Environment) (row : Row) (expr : PgExpr) : PgValue :=
  expr.eval backend relation.relid env (relation.columns row)

def truth (env : Environment) (row : Row) (expr : PgExpr) : Truth :=
  (backend.value relation env row expr).truth

/-- What the executor evaluates for a slot, without a row. -/
def bindingValue (env : Environment) (binding : RuntimeValueExpr) : PgValue :=
  binding.expr.eval backend relation.relid env fun _ => none

/-- Predicates over columns and slots, as PostgreSQL computes their leaves. -/
def semantics (values : RuntimeValueBindings) :
    ScalarSemantics ScalarExpr PgComparisonOp Row where
  isNull value row := (relation.scalar values row value).isNone
  boolean value row := (relation.scalar values row value).truth
  compare operator left right row :=
    (backend.operator operator
      [relation.scalar values row left, relation.scalar values row right]).truth
  isNan value row := SqlValue.nanTruth (relation.scalar values row value).toSql
  startsWith value pre row :=
    SqlValue.prefixTruth (relation.scalar values row value).toSql
      (relation.scalar values row pre).toSql
  inSet operator value set row :=
    (backend.arrayOperator operator true (relation.scalar values row value)
      (relation.scalar values row set)).truth

/-- Every slot holds what its expression evaluates to. -/
def Agrees (env : Environment) (values : RuntimeValueBindings)
    (bindings : List RuntimeValueExpr) : Prop :=
  ∀ slot binding, bindings[slot]? = some binding →
    (values slot).datum = backend.bindingValue relation env binding

/-- A predicate over the slots of `bindings` has the truth value of an expression. -/
def Denotes (bindings : List RuntimeValueExpr) (predicate : FilterExpr) (expr : PgExpr) : Prop :=
  ∀ env values row, backend.Agrees relation env values bindings →
    predicate.eval (backend.semantics relation values) row = backend.truth relation env row expr

def normalizer : RelationExpressionNormalizer := ⟨relation.relid, backend.catalog⟩

end Backend

/-! ## Typed operands -/

/-- The datums of a type, as far as comparisons tell them apart. -/
def TypeOid.admits : TypeOid → RuntimeDatum → Bool
  | .bool, .scalar (.boolean _) => true
  | .int2, .scalar (.integral _) | .int4, .scalar (.integral _) | .int8, .scalar (.integral _)
  | .date, .scalar (.integral _) | .time, .scalar (.integral _)
  | .timestamp, .scalar (.integral _) | .timestamptz, .scalar (.integral _) => true
  | .float4, .scalar (.float _) | .float8, .scalar (.float _) => true
  | .numeric, .scalar (.numeric _) => true
  | .text, .scalar (.text _) | .varchar, .scalar (.text _) | .bpchar, .scalar (.text _) => true
  | .uuid, .scalar (.binary _) | .bytea, .scalar (.binary _) => true
  | .array _, .array _ => true
  | .other _, _ => true
  | _, _ => false

namespace Backend

variable (backend : Backend) (relation : ScannedRelation Row)

/-- An operand that reads a column of the relation yields NULL or a datum of the
type. -/
def OperandTyped (type : TypeOid) (expr : PgExpr) : Prop :=
  ∀ node : PgVar, node.varno = relation.relid →
    parse expr = some (.var node) ∨
      parse expr = some (.widenedIntegerVar node) →
    ∀ env row datum, backend.value relation env row expr = some datum →
      TypeOid.admits type datum = true

/-- PostgreSQL binds a built-in comparison to operands of its own types. -/
def LeafTyped : PgExpr → Prop
  | .op node [left, right] => ∀ signature, builtinSignature backend.catalog node = some signature →
      backend.OperandTyped relation signature.leftType left ∧
        backend.OperandTyped relation signature.rightType right
  | _ => True

mutual

def Typed : PgExpr → Prop
  | .relabel arg _ => Typed arg
  | .bool _ args => TypedAll args
  | leaf => backend.LeafTyped relation leaf

def TypedAll : List PgExpr → Prop
  | [] => True
  | arg :: rest => Typed arg ∧ TypedAll rest

end

end Backend

/-! ## Scalars -/

section Normalizing

variable {k : Backend} {e : ScannedRelation Row} {env : Environment} {vs : RuntimeValueBindings}
  {bs bs' : List RuntimeValueExpr}

/-- The expressions behind earlier slots stay; what is known of them may be
refined. -/
def Grows (bindings bindings' : List RuntimeValueExpr) : Prop :=
  bindings.map expr <+: bindings'.map expr

lemma Grows.refl (bs : List RuntimeValueExpr) : Grows bs bs := prefix_rfl

lemma Grows.trans {b'' : List RuntimeValueExpr} (h : Grows bs bs')
    (h' : Grows bs' b'') : Grows bs b'' :=
  List.IsPrefix.trans h h'

open Backend

lemma Backend.Agrees.of_grows (h : k.Agrees e env vs bs')
    (hg : Grows bs bs') : k.Agrees e env vs bs := by
  intro s b hs
  have he : (bs'.map expr)[s]? = some b.expr := by
    obtain ⟨l, hl⟩ := hg
    obtain ⟨hlt, -⟩ := List.getElem?_eq_some_iff.mp hs
    rw [← hl, getElem?_append_left (by simpa using hlt), getElem?_map, hs]
    rfl
  rw [getElem?_map] at he
  obtain ⟨b', hs', hsa⟩ := map_eq_some_iff.mp he
  rw [h s b' hs', bindingValue, bindingValue, hsa]

variable {p : FilterExpr} {expr : PgExpr}

lemma Backend.Denotes.of_grows (h : k.Denotes e bs p expr) (hg : Grows bs bs') :
    k.Denotes e bs' p expr :=
  fun env vs row ha => h env vs row (ha.of_grows hg)

/-- A scalar over the slots of `bindings` has the value of an expression. -/
def Backend.Stands (backend : Backend) (relation : ScannedRelation Row)
    (bindings : List RuntimeValueExpr) (scalar : ScalarExpr) (expr : PgExpr) : Prop :=
  ∀ env values row, backend.Agrees relation env values bindings →
    relation.scalar values row scalar = backend.value relation env row expr

variable {sc : ScalarExpr}

lemma Backend.Stands.of_grows (h : k.Stands e bs sc expr) (hg : Grows bs bs') :
    k.Stands e bs' sc expr :=
  fun env vs row ha => h env vs row (ha.of_grows hg)

variable {args : List PgExpr} {node : PgVar}

lemma eval_widenedIntegerVar (laws : k.Laws) {f : FuncNode}
    (h : widenedIntegerVar f args = some node) (r : ℤ) (env : Environment) (t : ℤ → PgValue) :
    (func f args).eval k r env t =
      if node.varno = r then t node.varattno else env.outer node.varno node.varattno := by
  unfold widenedIntegerVar at h
  split at h
  next a =>
    split_ifs at h
    split at h
    next varno varattno v ha =>
      split_ifs at h with hw
      cases h
      rw [eval, evalAll, evalAll, laws.widening f _ hw, ← eval_withoutRelabels, ha, eval]
    next => cases h
  next => cases h

lemma eval_of_parse (laws : k.Laws) (h : parse expr = some (.var node) ∨
      parse expr = some (.widenedIntegerVar node)) (r : ℤ) (env : Environment) (t : ℤ → PgValue) :
    expr.eval k r env t =
      if node.varno = r then t node.varattno else env.outer node.varno node.varattno := by
  rw [← eval_withoutRelabels]
  unfold parse at h
  cases he : expr.withoutRelabels with
  | var varno varattno v =>
    simp only [he, Option.some.injEq, PgScalarExprRef.var.injEq, reduceCtorEq, or_false] at h
    rw [← h, eval]
  | func f args =>
    have hw : widenedIntegerVar f args = some node := by simpa [he] using h
    exact eval_widenedIntegerVar laws hw r env t
  | _ => simp [he] at h

lemma eval_of_fixed
    (h : parse expr = some .const ∨ ∃ paramkind, parse expr = some (.param paramkind)) (r : ℤ)
    (env : Environment) (t t' : ℤ → PgValue) : expr.eval k r env t = expr.eval k r env t' := by
  rw [← eval_withoutRelabels k r env t, ← eval_withoutRelabels k r env t']
  unfold parse at h
  cases he : expr.withoutRelabels with
  | const c value => rfl
  | param paramkind a p => rfl
  | _ => simp [he] at h

lemma pushBinding_spec (m : RuntimeValueSpec)
    (hc : ∀ env t, expr.eval k e.relid env t = expr.eval k e.relid env fun _ => none) :
    Grows bs (bs ++ [⟨expr, m⟩]) ∧ k.Stands e (bs ++ [⟨expr, m⟩]) (.value bs.length) expr := by
  refine ⟨by simp [Grows], fun env vs row ha => ?_⟩
  have hs := ha bs.length ⟨expr, m⟩ (by simp)
  rw [ScannedRelation.scalar, hs, bindingValue, value, hc env (e.columns row)]

lemma normalizeVar_spec (laws : k.Laws)
    (hp : parse expr = some (.var node) ∨ parse expr = some (.widenedIntegerVar node))
    (h : (k.normalizer e).normalizeVar expr node bs = some (sc, bs')) :
    Grows bs bs' ∧ k.Stands e bs' sc expr := by
  unfold normalizeVar at h
  split_ifs at h with ha hv
  · cases h
    refine ⟨.refl _, fun env vs row _ => ?_⟩
    have hvalue := eval_of_parse laws hp e.relid env (e.columns row)
    rw [value, hvalue, if_pos (show node.varno = e.relid from hv), ScannedRelation.scalar]
  · cases h
    refine pushBinding_spec _ fun env t => ?_
    have ho := eval_of_parse laws hp e.relid env
    simp only [if_neg (show ¬node.varno = e.relid from hv)] at ho
    rw [ho, ho]

lemma normalizeScalar_spec (laws : k.Laws)
    (h : (k.normalizer e).normalizeScalar expr bs = some (sc, bs')) :
    Grows bs bs' ∧ k.Stands e bs' sc expr := by
  unfold normalizeScalar at h
  split at h
  next => cases h
  next node hp => exact normalizeVar_spec laws (.inl hp) h
  next node hp => exact normalizeVar_spec laws (.inr hp) h
  next hp =>
    cases h
    exact pushBinding_spec _ fun env t => eval_of_fixed (.inl hp) _ env t _
  next p hp =>
    obtain ⟨s, -, hpu⟩ := map_eq_some_iff.mp h
    cases hpu
    exact pushBinding_spec _ fun env t => eval_of_fixed (.inr ⟨_, hp⟩) _ env t _

/-! ## Leaves -/

/-- What normalizing an expression with the bindings made so far returns. -/
structure Backend.Normalizes (backend : Backend) (relation : ScannedRelation Row)
    (bindings bindings' : List RuntimeValueExpr) (predicate : FilterExpr) (expr : PgExpr) :
    Prop where
  grows : Grows bindings bindings'
  denotes : backend.Denotes relation bindings' predicate expr

variable (env : Environment) (row : Row)

lemma truth_op (node : PgComparisonOp) (l r : PgExpr) : k.truth e env row (.op node [l, r]) =
      (k.operator node [k.value e env row l, k.value e env row r]).truth := by
  rfl

lemma truth_func (node : FuncNode) (l r : PgExpr) : k.truth e env row (.func node [l, r]) =
      (k.function node [k.value e env row l, k.value e env row r]).truth := by
  rfl

lemma specializeDecimalConstant_exprs (c v : ScalarExpr) (bs : List RuntimeValueExpr) :
    (specializeDecimalConstant c v bs).map RuntimeValueExpr.expr = bs.map RuntimeValueExpr.expr :=
      by
  have hs (c : ColumnRef) (b : RuntimeValueExpr) : (specialized c b).expr = b.expr := by
    unfold specialized
    split_ifs
    · split
      · split_ifs <;> rfl
      · rfl
    · rfl
  unfold specializeDecimalConstant
  split
  next c s =>
    refine ext_getElem? fun i => ?_
    by_cases hi : s = i
    · simp [hi, Function.comp_def, hs]
    · simp [hi]
  next => rfl

variable {op : PgComparisonOp} {l r : PgExpr}

lemma normalizeComparison_spec (laws : k.Laws)
    (h : (k.normalizer e).normalizeComparison op l r bs = some (p, bs')) :
    k.Normalizes e bs bs' p (.op op [l, r]) := by
  obtain ⟨⟨x, b₁⟩, hl, h⟩ := bind_eq_some_iff.mp h
  obtain ⟨⟨y, b₂⟩, hr, h⟩ := bind_eq_some_iff.mp h
  cases h
  obtain ⟨hg₁, hx⟩ := normalizeScalar_spec laws hl
  obtain ⟨hg₂, hy⟩ := normalizeScalar_spec laws hr
  have hs : Grows b₂ (specializeDecimalConstant y x (specializeDecimalConstant x y b₂)) := by
    rw [Grows, specializeDecimalConstant_exprs, specializeDecimalConstant_exprs]
  refine ⟨(hg₁.trans hg₂).trans hs, fun env vs row ha => ?_⟩
  rw [truth_op, ← hx.of_grows (hg₂.trans hs) env vs row ha, ← hy.of_grows hs env vs row ha]
  rfl

variable {value : PgExpr}

lemma normalizeBooleanColumn_spec (laws : k.Laws)
    (h : (k.normalizer e).normalizeBooleanColumn value bs = some (p, bs')) :
    k.Normalizes e bs bs' p value := by
  obtain ⟨⟨x, b₁⟩, hl, h⟩ := bind_eq_some_iff.mp h
  obtain ⟨⟨y, b₂⟩, hr, h⟩ := bind_eq_some_iff.mp h
  cases h
  obtain ⟨hg₁, hx⟩ := normalizeScalar_spec laws hl
  obtain ⟨hg₂, hy⟩ := normalizeScalar_spec laws hr
  refine ⟨hg₁.trans hg₂, fun env vs row ha => ?_⟩
  have hc : PredicateExpr.eval (k.semantics e vs) (.comparison booleanEquality x y) row =
      (k.operator booleanEquality [e.scalar vs row x, e.scalar vs row y]).truth := rfl
  rw [hc, hx.of_grows hg₂ env vs row ha, hy env vs row ha,
    laws.comparison _ _ laws.booleanEquality, truth]
  rcases k.value e env row value with _ | ⟨_ | _⟩ | _
  all_goals try rfl
  rename_i flag
  cases flag <;> rfl

variable {pre : PgExpr} {o : ℕ}

lemma normalizeStartsWith_spec (laws : k.Laws) {expr : PgExpr}
    (h : (k.normalizer e).normalizeStartsWith value pre o bs = some (p, bs'))
    (ht : k.catalog.isDeterministic o = true → ∀ env row,
      k.truth e env row expr = SqlValue.prefixTruth
        (k.value e env row value).toSql (k.value e env row pre).toSql) :
    k.Normalizes e bs bs' p expr := by
  unfold normalizeStartsWith at h
  split_ifs at h with hc
  obtain ⟨⟨x, b₁⟩, hv, h⟩ := bind_eq_some_iff.mp h
  cases x with
  | value s => cases h
  | column column =>
    obtain ⟨⟨y, b₂⟩, hp, h⟩ := bind_eq_some_iff.mp h
    cases y with
    | column column => cases h
    | value s =>
      cases h
      obtain ⟨hg₁, hx⟩ := normalizeScalar_spec laws hv
      obtain ⟨hg₂, hy⟩ := normalizeScalar_spec laws hp
      refine ⟨hg₁.trans hg₂, fun env vs row ha => ?_⟩
      rw [ht (of_decide_eq_true hc).2, ← hx.of_grows hg₂ env vs row ha, ← hy env vs row ha]
      rfl

lemma pureLikePrefixConst_spec {expr r : PgExpr} (h : pureLikePrefixConst expr = some r) :
    ∃ t p pre, expr = .const t (some (.scalar (.text p))) ∧
      r = .const ⟨.text, t.typmod, t.collation⟩ (some (.scalar (.text pre))) ∧
      ∀ n text, SqlValue.likeTruth n (some (.text text)) (some (.text p)) =
        some (pre.isPrefixOf text) := by
  unfold pureLikePrefixConst at h
  split at h
  next t p =>
    split_ifs at h
    obtain ⟨pre, hp, rfl⟩ := map_eq_some_iff.mp h
    refine ⟨t, p, pre, rfl, rfl, fun n text => ?_⟩
    rw [SqlValue.likeTruth, likeTokens_pureLikePrefix hp, map_some, likeMatch_prefix]
  next => cases h

/-- The text a constant pattern is replaced by is a prefix of exactly the texts that match. -/
theorem pureLikePrefixConst_exact (nextChar : Bytes → Option Bytes) {expr result : PgExpr}
    (h : pureLikePrefixConst expr = some result) :
    ∃ type pattern pre, expr = .const type (some (.scalar (.text pattern))) ∧
      result = .const ⟨.text, type.typmod, type.collation⟩ (some (.scalar (.text pre))) ∧
      ∀ text, SqlValue.likeTruth nextChar (some (.text text)) (some (.text pattern)) = some true ↔
        pre <+: text := by
  obtain ⟨type, pattern, pre, he, hr, hl⟩ := pureLikePrefixConst_spec h
  refine ⟨type, pattern, pre, he, hr, fun text => ?_⟩
  rw [hl, some_inj, isPrefixOf_iff_prefix]

/-- `LIKE 'a\%b%'` looks for the prefix `a%b`. -/
theorem escapedPattern_exact :
    ∃ pre, pureLikePrefixConst (.const ⟨.text, -1, 100⟩
        (some (.scalar (.text [97, 92, 37, 98, 37])))) =
          some (.const ⟨.text, -1, 100⟩ (some (.scalar (.text pre)))) ∧
      ∀ text, SqlValue.likeTruth (fun text => text.tail?) (some (.text text))
        (some (.text [97, 92, 37, 98, 37])) = some true ↔ pre <+: text := by
  have hc : pureLikePrefixConst (.const ⟨.text, -1, 100⟩
      (some (.scalar (.text [97, 92, 37, 98, 37])))) =
        some (.const ⟨.text, -1, 100⟩ (some (.scalar (.text [97, 37, 98])))) := rfl
  obtain ⟨type, pattern, pre, he, hr, hl⟩ := pureLikePrefixConst_exact (fun text => text.tail?) hc
  cases he
  cases hr
  exact ⟨[97, 37, 98], hc, hl⟩

lemma normalizeLikePrefix_spec (laws : k.Laws) {a : PgExpr} (ho : op.opno = textLikeOperator)
    (h : (k.normalizer e).normalizeLikePrefix op value a bs = some (p, bs')) :
    k.Normalizes e bs bs' p (.op op [value, a]) := by
  unfold normalizeLikePrefix at h
  split_ifs at h with hf
  split at h
  next pre hpr =>
    refine normalizeStartsWith_spec laws h fun hd env row => ?_
    rw [truth_op, laws.textLike op ho hf.1 hd]
    obtain ⟨t, b, l, hco, rfl, hl⟩ := pureLikePrefixConst_spec hpr
    have hp : k.value e env row a = some (.scalar (.text b)) := by
      rw [Backend.value, ← eval_withoutRelabels, hco, eval]
    have hc : k.value e env row (.const ⟨.text, t.typmod, t.collation⟩
        (some (.scalar (.text l)))) = some (.scalar (.text l)) := by
      rw [Backend.value, eval]
    rw [hp, hc]
    cases hvalue : (k.value e env row value).toSql with
    | none => rfl
    | some d =>
      cases d with
      | text text => exact hl k.nextChar text
      | _ => rfl
  next => cases h

lemma order_nan (num : NumericValue) : num.order .nan = if num = .nan then .eq else .lt := by
  cases num <;> rfl

lemma nan_order (num : NumericValue) :
    NumericValue.nan.order num = if num = .nan then .eq else .gt := by
  cases num <;> rfl

def nanAnswer : RelationExpressionNormalizer.PgNanComparison → Bool → Bool
  | .isNan, isNan => isNan
  | .isNotNan, isNan => !isNan
  | .strictTrue, _ => true
  | .strictFalse, _ => false

lemma withNanOn_holds (n : Bool) (k : PgComparisonKind) (i : Bool) :
    k.holds (if i then .eq else if n then .gt else .lt) = nanAnswer (withNanOn n k) i := by
  cases n <;> cases k <;> cases i <;> rfl

variable {c : ColumnRef}

section

variable {row : Row} {num : Option NumericValue}
  (hv : e.columns row c.attno = num.map fun num => .scalar (.float num))

include hv

lemma nanPredicate_eval (m : PgNanComparison) :
    (m.predicate (.column c)).eval (k.semantics e vs) row =
      num.map fun num => nanAnswer m (num = .nan) := by
  have hn (num : NumericValue) :
      SqlValue.nanTruth (some (.number num)) = some (decide (num = .nan)) := by
    cases num <;> rfl
  have hs : e.scalar vs row (.column c) = num.map fun num => .scalar (.float num) := hv
  cases num with
  | none =>
    cases m <;>
      simp only [RelationExpressionNormalizer.PgNanComparison.predicate, PredicateExpr.eval,
        semantics, hs] <;> rfl
  | some num =>
    have hsq : PgValue.toSql (some (.scalar (.float num))) = some (.number num) := rfl
    cases m <;>
      simp only [RelationExpressionNormalizer.PgNanComparison.predicate, PredicateExpr.eval,
        semantics, hs, map_some, hsq, hn] <;> rfl

lemma withNanOn_truth (n : Bool) (kind : PgComparisonKind) (o : Bytes → Bytes → Ordering) :
    ((withNanOn n kind).predicate (.column c)).eval (k.semantics e vs) row =
      if n then kind.truth o (some (.number .nan)) (num.map .number)
      else kind.truth o (num.map .number) (some (.number .nan)) := by
  rw [nanPredicate_eval hv _]
  cases num with
  | none => cases n <;> rfl
  | some num =>
    have hl : kind.truth o (some (.number .nan)) (some (.number num)) =
        some (kind.holds (NumericValue.nan.order num)) := rfl
    have hr : kind.truth o (some (.number num)) (some (.number .nan)) =
        some (kind.holds (num.order .nan)) := rfl
    simp only [map_some, hl, hr, order_nan, nan_order, ← withNanOn_holds]
    cases n <;> simp

end

lemma value_of_isFloatNan (h : isFloatNan expr.withoutRelabels = true) (env : Environment)
    (row : Row) : (k.value e env row expr).toSql = some (.number .nan) := by
  unfold isFloatNan at h
  split at h
  next t he => rw [value, ← eval_withoutRelabels, he]; rfl
  next => cases h

lemma float_of_admits {t : TypeOid} (hf : isFloat t = true)
    {v : PgValue} (h : ∀ d, v = some d → TypeOid.admits t d = true) :
    ∃ num : Option NumericValue, v = num.map fun num => .scalar (.float num) := by
  cases v with
  | none => exact ⟨none, rfl⟩
  | some d =>
    have ha := h d rfl
    cases t with
    | float4 | float8 =>
      cases d with
      | array e => cases ha
      | scalar d =>
        cases d with
        | float num => exact ⟨some num, rfl⟩
        | _ => cases ha
    | _ => cases hf

lemma normalizeScalar_column (h : (k.normalizer e).normalizeScalar expr bs =
      some (.column c, bs')) :
    ∃ node : PgVar, node.varno = e.relid ∧ (parse expr = some (.var node) ∨
        parse expr = some (.widenedIntegerVar node)) := by
  have hva (node : PgVar) (hn : (k.normalizer e).normalizeVar expr node bs =
      some (.column c, bs')) : node.varno = e.relid := by
    unfold normalizeVar at hn
    split_ifs at hn with ha hv
    · exact hv
    · cases Option.some.inj hn
  unfold normalizeScalar at h
  split at h
  next => cases h
  next node hp => exact ⟨node, hva node h, .inl hp⟩
  next node hp => exact ⟨node, hva node h, .inr hp⟩
  next => cases Option.some.inj h
  next =>
    obtain ⟨s, -, hpu⟩ := map_eq_some_iff.mp h
    cases hpu

section

variable (laws : k.Laws)

include laws

lemma nanColumn_spec {t : TypeOid} (hf : isFloat t = true) (ht : k.OperandTyped e t expr)
    (h : (k.normalizer e).normalizeScalar expr bs = some (.column c, bs')) (env : Environment)
    (vs : RuntimeValueBindings) (row : Row) (ha : k.Agrees e env vs bs') :
    ∃ num : Option NumericValue, (e.columns row c.attno = num.map fun num => .scalar (.float num)) ∧
      (k.value e env row expr).toSql = num.map .number := by
  obtain ⟨node, hv, hp⟩ := normalizeScalar_column h
  obtain ⟨num, hn⟩ := float_of_admits hf (ht node hv hp env row)
  have hs : e.columns row c.attno = k.value e env row expr :=
    (normalizeScalar_spec laws h).2 env vs row ha
  refine ⟨num, hs.trans hn, ?_⟩
  rw [hn]
  cases num <;> rfl

lemma normalizeNanComparison_spec (ht : k.LeafTyped e (.op op [l, r]))
    (h : (k.normalizer e).normalizeNanComparison op l r bs = some (p, bs')) :
    k.Normalizes e bs bs' p (.op op [l, r]) := by
  obtain ⟨s, hs, h⟩ := bind_eq_some_iff.mp h
  obtain ⟨htl, htr⟩ := ht s hs
  split_ifs at h with hf
  obtain ⟨hfl, hfr⟩ := Bool.and_eq_true_iff.mp hf
  obtain ⟨⟨o, b⟩, ho, h⟩ := bind_eq_some_iff.mp h
  obtain ⟨⟨x, b₁⟩, hsc, h⟩ := bind_eq_some_iff.mp h
  cases x with
  | value slot => cases h
  | column c =>
    cases h
    refine ⟨(normalizeScalar_spec laws hsc).1, fun env vs row ha => ?_⟩
    rw [truth_op, laws.comparison op s hs]
    unfold nanOperand at ho
    split at ho
    next hn _ =>
      cases ho
      obtain ⟨n, hc, hsq⟩ := nanColumn_spec laws hfr htr hsc env vs row ha
      rw [withNanOn_truth hc true s.kind (k.catalog.collate op.inputcollid),
        if_pos rfl, value_of_isFloatNan hn, hsq]
    next _ hn =>
      cases ho
      obtain ⟨n, hc, hsq⟩ := nanColumn_spec laws hfl htl hsc env vs row ha
      rw [withNanOn_truth hc false s.kind (k.catalog.collate op.inputcollid),
        if_neg Bool.false_ne_true, value_of_isFloatNan hn, hsq]
    next => cases ho

lemma normalizeInSet_spec {node : ScalarArrayNode} {sc a : PgExpr}
    (h : (k.normalizer e).normalizeInSet node sc a bs = some (p, bs')) :
    k.Normalizes e bs bs' p (.scalarArrayOp node sc a) := by
  unfold normalizeInSet at h
  split_ifs at h with huo
  obtain ⟨⟨x, b₁⟩, hs, h⟩ := bind_eq_some_iff.mp h
  cases x with
  | value s => cases h
  | column c =>
    obtain ⟨⟨y, b₂⟩, har, h⟩ := bind_eq_some_iff.mp h
    cases y with
    | column c => cases h
    | value s =>
      cases h
      obtain ⟨hg₁, hx⟩ := normalizeScalar_spec laws hs
      obtain ⟨hg₂, hy⟩ := normalizeScalar_spec laws har
      refine ⟨hg₁.trans hg₂, fun env vs row ha => ?_⟩
      have ht : k.truth e env row (.scalarArrayOp node sc a) =
          (k.arrayOperator node.comparisonOp node.useOr (k.value e env row sc)
            (k.value e env row a)).truth := by
        rfl
      rw [ht, huo, ← hx.of_grows hg₂ env vs row ha, ← hy env vs row ha]
      rfl

lemma operatorStartsWith_spec {node : PgComparisonOp}
    (ho : operatorStartsWithOperands node args = some (value, pre, o))
    (h : (k.normalizer e).normalizeStartsWith value pre o bs = some (p, bs')) :
    k.Normalizes e bs bs' p (.op node args) := by
  unfold operatorStartsWithOperands at ho
  split at ho
  next v' pre' =>
    split_ifs at ho with hn
    obtain ⟨rfl, rfl, rfl⟩ : v' = value ∧ pre' = pre ∧ node.inputcollid = o := by
      simpa using ho
    refine normalizeStartsWith_spec laws h fun hd env row => ?_
    rw [truth_op, laws.textPrefix node hn.1 hn.2.1 hd]
  next => cases ho

lemma functionStartsWith_spec {node : FuncNode}
    (ho : functionStartsWithOperands node args = some (value, pre, o))
    (h : (k.normalizer e).normalizeStartsWith value pre o bs = some (p, bs')) :
    k.Normalizes e bs bs' p (.func node args) := by
  unfold functionStartsWithOperands at ho
  split at ho
  next v' pre' =>
    split_ifs at ho with hn
    obtain ⟨rfl, rfl, rfl⟩ : v' = value ∧ pre' = pre ∧ node.inputcollid = o := by
      simpa using ho
    refine normalizeStartsWith_spec laws h fun hd env row => ?_
    rw [truth_func, laws.startsWith node hn.1 hd]
  next => cases ho

/-- The comparison of an operator node, in the order the normalizer tries. -/
lemma comparisonLeaf_spec (ht : k.LeafTyped e (.op op [l, r]))
    (h : (k.normalizer e).normalizeLeaf (.comparison op l r) bs = some (p, bs')) :
    k.Normalizes e bs bs' p (.op op [l, r]) := by
  simp only [normalizeLeaf] at h
  split_ifs at h with hl
  · exact normalizeLikePrefix_spec laws hl h
  · split at h
    next n hn =>
      cases h
      exact normalizeNanComparison_spec laws ht hn
    next => exact normalizeComparison_spec laws h

lemma testLeaf_spec {arg : PgExpr} (test : PgValue → Truth)
    (h : (k.normalizer e).normalizeScalar arg bs = some (sc, bs'))
    (hp : ∀ vs row, p.eval (k.semantics e vs) row = test (e.scalar vs row sc))
    (he : ∀ env row, k.truth e env row expr = test (k.value e env row arg)) :
    k.Normalizes e bs bs' p expr := by
  obtain ⟨hg, hs⟩ := normalizeScalar_spec laws h
  refine ⟨hg, fun env vs row ha => ?_⟩
  rw [hp, he, hs env vs row ha]

lemma normalizeOther_spec (hty : k.LeafTyped e expr)
    (h : (k.normalizer e).normalizeOther expr bs = some (p, bs')) :
    k.Normalizes e bs bs' p expr := by
  cases expr with
  | var varno v va =>
    simp only [normalizeOther] at h
    split_ifs at h
    exact normalizeBooleanColumn_spec laws h
  | scalarArrayOp node sc ar => exact normalizeInSet_spec laws h
  | op node args =>
    obtain ⟨leaf, hl, h⟩ := bind_eq_some_iff.mp h
    simp only [PgPredicateLeafRef.parse] at hl
    split at hl
    next value pre o ho =>
      cases hl
      exact operatorStartsWith_spec laws ho h
    next =>
      split at hl
      next l r =>
        cases hl
        exact comparisonLeaf_spec laws hty h
      next => cases hl
  | func node args =>
    obtain ⟨leaf, hl, h⟩ := bind_eq_some_iff.mp h
    obtain ⟨⟨value, pre, o⟩, ho, rfl⟩ := map_eq_some_iff.mp hl
    exact functionStartsWith_spec laws ho h
  | booleanTest kind arg =>
    obtain ⟨⟨sc, b₁⟩, hs, h⟩ := map_eq_some_iff.mp h
    cases h
    refine testLeaf_spec laws (fun value => some (kind.test value.truth)) hs
      (fun vs row => rfl) fun env row => ?_
    rfl
  | nullTest kind a arg =>
    obtain ⟨leaf, hl, h⟩ := bind_eq_some_iff.mp h
    simp only [PgPredicateLeafRef.parse] at hl
    split_ifs at hl with hr
    cases hl
    obtain ⟨⟨sc, b₁⟩, hs, h⟩ := map_eq_some_iff.mp h
    have ht (env : Environment) (row : Row) : k.truth e env row (.nullTest kind a arg) =
          some (kind.test (k.value e env row arg)) := by
      rw [truth, value, eval, if_neg hr]
      rfl
    cases kind with
    | isNull =>
      cases h
      exact testLeaf_spec laws (fun value => some value.isNone) hs (fun _ _ => rfl) ht
    | isNotNull =>
      cases h
      refine testLeaf_spec laws (fun value => some value.isSome) hs (fun vs row => ?_) ht
      rw [← not_isNone]
      rfl
  | _ => cases h

end

/-! ## Trees -/

lemma truth_bool (b : BoolExprType) (args : List PgExpr) :
    k.truth e env row (.bool b args) = match b with
      | .and => Truth.all (args.map (k.truth e env row))
      | .or => Truth.any (args.map (k.truth e env row))
      | .not => Truth.not (Truth.all (args.map (k.truth e env row))) := by
  have hv : (evalAll k e.relid env (e.columns row) args).map
      PgValue.truth = args.map (k.truth e env row) := by
    rw [PgExpr.evalAll_eq, List.map_map]
    rfl
  cases b <;> rw [truth, value, eval, hv, PgValue.truth_ofTruth]

lemma truth_relabel (arg : PgExpr) (t : ExprType) :
    k.truth e env row (.relabel arg t) = k.truth e env row arg := by
  rfl

lemma truth_withoutRelabels (expr : PgExpr) :
    k.truth e env row expr.withoutRelabels = k.truth e env row expr := by
  rw [truth, value, eval_withoutRelabels]
  rfl

section

variable {cs : List FilterExpr}
  (h : List.Forall₂ (fun child arg => k.Denotes e bs child arg) cs args)

include h

lemma evalAll_of_denotes {env : Environment} {vs : RuntimeValueBindings} (row : Row)
    (ha : k.Agrees e env vs bs) :
    PredicateExpr.evalAll (k.semantics e vs) cs row = args.map (k.truth e env row) := by
  induction h with
  | nil => rfl
  | cons hc _ ih => rw [PredicateExpr.evalAll, ih, hc env vs row ha, map_cons]

lemma booleanNode_denotes {b : BoolExprType} (hn : booleanNode b cs = some p) :
    k.Denotes e bs p (.bool b args) := by
  intro env vs row ha
  have hv := evalAll_of_denotes h row ha
  rw [truth_bool]
  cases b with
  | and | or =>
    cases hn
    rw [PredicateExpr.eval, hv]
  | not =>
    rcases cs with _ | ⟨child, _ | _⟩ <;> cases hn
    rw [← hv, PredicateExpr.evalAll, PredicateExpr.evalAll, Truth.all_singleton, PredicateExpr.eval]

end

mutual

lemma normalizeNode_spec (laws : k.Laws) : ∀ (expr : PgExpr) {bs bs' p}, k.Typed e expr →
    (k.normalizer e).normalizeNode expr bs = some (p, bs') → k.Normalizes e bs bs' p expr
  | .relabel arg type, _, _, _, ht, h => by
    obtain ⟨hg, hd⟩ := normalizeNode_spec laws arg ht h
    refine ⟨hg, fun env vs row ha => ?_⟩
    rw [truth_relabel, hd env vs row ha]
  | .bool b args, _, _, _, ht, h => by
    rw [RelationExpressionNormalizer.normalizeNode] at h
    split_ifs at h
    obtain ⟨⟨c, b₁⟩, hc, h⟩ := bind_eq_some_iff.mp h
    obtain ⟨node, hn, h⟩ := bind_eq_some_iff.mp h
    cases h
    obtain ⟨hg, hd⟩ := normalizeAll_spec laws args ht hc
    exact ⟨hg, booleanNode_denotes hd hn⟩
  | .var .., _, _, _, ht, h | .const .., _, _, _, ht, h
  | .param .., _, _, _, ht, h | .func .., _, _, _, ht, h
  | .op .., _, _, _, ht, h | .scalarArrayOp .., _, _, _, ht, h
  | .nullTest .., _, _, _, ht, h | .booleanTest .., _, _, _, ht, h
  | .other .., _, _, _, ht, h => normalizeOther_spec laws ht h

lemma normalizeAll_spec (laws : k.Laws) :
    ∀ (args : List PgExpr) {bs bs' c}, k.TypedAll e args →
    (k.normalizer e).normalizeAll args bs = some (c, bs') → Grows bs bs' ∧
      List.Forall₂ (fun child arg => k.Denotes e bs' child arg) c args
  | [], _, _, _, _, h => by
    cases h
    exact ⟨.refl _, .nil⟩
  | arg :: rest, _, _, _, ht, h => by
    obtain ⟨⟨child, b₁⟩, hc, h⟩ := bind_eq_some_iff.mp h
    obtain ⟨⟨c, b₂⟩, hr, h⟩ := bind_eq_some_iff.mp h
    cases h
    obtain ⟨hg₁, hd⟩ := normalizeNode_spec laws arg ht.1 hc
    obtain ⟨hg₂, ha⟩ := normalizeAll_spec laws rest ht.2 hr
    exact ⟨hg₁.trans hg₂, .cons (hd.of_grows hg₂) ha⟩

end

end Normalizing

/-! ## Clauses -/

/-- A normalized predicate says what the expression it is pushed as says. -/
structure NormalizedPredicate.WellFormed (backend : Backend) (relation : ScannedRelation Row)
    (normalized : NormalizedPredicate) : Prop where
  specs : normalized.fragment.values = normalized.bindings.map metadata
  denotes : backend.Denotes relation normalized.bindings normalized.fragment.root
    normalized.pushedExpr

lemma normalize_spec {k : Backend} {e : ScannedRelation Row} (laws : k.Laws)
    {expr : PgExpr} (ht : k.Typed e expr) {n : NormalizedPredicate}
    (h : (k.normalizer e).normalize expr = some n) : n.WellFormed k e ∧ n.pushedExpr = expr := by
  obtain ⟨⟨r, bs⟩, hr, rfl⟩ := map_eq_some_iff.mp h
  exact ⟨⟨rfl, (normalizeNode_spec laws expr ht hr).denotes⟩, rfl⟩

end LagoDB.Negotiation
