import LagoDB.FilterPlanner
import Mathlib.Data.List.Infix

/-!
# PostgreSQL expressions

Scan clauses arrive as PostgreSQL expression trees. The nodes that pushdown looks
into are spelled out, everything else is one opaque kind of node. PostgreSQL
itself is a parameter: what its operators and functions compute, with the laws
pushdown relies on where it replaces an expression by another of the same value.
-/
namespace LagoDB.Negotiation

open SqlLogic Pushdown Iceberg

/-! ## Trees -/

/-- A datum or NULL. -/
abbrev PgValue := Option RuntimeDatum

inductive ParamKind where
  | external
  | exec
  | sublink
  | multiexpr
  deriving DecidableEq

inductive BoolExprType where
  | and
  | or
  | not
  deriving DecidableEq

inductive PgNullTestKind where
  | isNull
  | isNotNull
  deriving DecidableEq

structure FuncNode where
  funcid : ℕ
  funcresulttype : TypeOid
  funcretset : Bool
  funcvariadic : Bool
  funccollid : ℕ
  inputcollid : ℕ
  deriving DecidableEq

/-- True `useOr` is `op ANY (array)`, false is `op ALL (array)`. -/
structure ScalarArrayNode where
  opno : ℕ
  opfuncid : ℕ
  useOr : Bool
  inputcollid : ℕ
  deriving DecidableEq

inductive PgExpr where
  | var (varno varattno : ℤ) (vartype : ExprType)
  | const (consttype : ExprType) (value : PgValue)
  | param (paramkind : ParamKind) (paramid : ℕ) (paramtype : ExprType)
  | relabel (arg : PgExpr) (resulttype : ExprType)
  | func (node : FuncNode) (args : List PgExpr)
  | op (node : PgComparisonOp) (args : List PgExpr)
  | scalarArrayOp (node : ScalarArrayNode) (scalar array : PgExpr)
  | bool (boolop : BoolExprType) (args : List PgExpr)
  | nullTest (kind : PgNullTestKind) (argisrow : Bool) (arg : PgExpr)
  | booleanTest (kind : BooleanTestKind) (arg : PgExpr)
  | other (tag : ℕ) (resulttype : ExprType) (args : List PgExpr)

namespace PgExpr

/-- `exprType`, `exprTypmod` and `exprCollation`. -/
def typeMetadata : PgExpr → ExprType
  | .var _ _ type | .const type _ | .param _ _ type | .relabel _ type | .other _ type _ => type
  | .func node _ => ⟨node.funcresulttype, -1, node.funccollid⟩
  | .op node _ => ⟨node.opresulttype, -1, node.opcollid⟩
  | .scalarArrayOp .. | .bool .. | .nullTest .. | .booleanTest .. => ⟨.bool, -1, 0⟩

def withoutRelabels : PgExpr → PgExpr
  | .relabel arg _ => arg.withoutRelabels
  | expr => expr

end PgExpr

/-! ## Catalog identities -/

def textLikeOperator : ℕ := 1209
def textLikeFunction : ℕ := 850
def textPrefixOperator : ℕ := 3877
def startsWithFunction : ℕ := 3696

def booleanEquality : PgComparisonOp := ⟨91, 60, .bool, 0, 0⟩

/-- `PgIntegerWidening::for_function`. -/
def isIntegerWidening (function : ℕ) (source target : TypeOid) : Bool :=
  match source, target with
  | .int2, .int4 => function = 313
  | .int2, .int8 => function = 754
  | .int4, .int8 => function = 481
  | _, _ => false

def builtinSignature (catalog : Catalog) (operator : PgComparisonOp) :
    Option PgComparisonSignature :=
  (catalog.forOperator operator.opno).filter fun signature =>
    operator.opfuncid = signature.functionOid ∧ operator.opresulttype = .bool

def ScalarArrayNode.comparisonOp (node : ScalarArrayNode) : PgComparisonOp :=
  ⟨node.opno, node.opfuncid, .bool, 0, node.inputcollid⟩

/-! ## Structural views -/

def operatorStartsWithOperands (node : PgComparisonOp) :
    List PgExpr → Option (PgExpr × PgExpr × ℕ)
  | [value, pre] =>
    if node.opno = textPrefixOperator ∧ node.opfuncid = startsWithFunction ∧
        node.opresulttype = .bool ∧ node.opcollid = 0 ∧
        value.typeMetadata.typeOid = .text ∧ pre.typeMetadata.typeOid = .text then
      some (value, pre, node.inputcollid)
    else none
  | _ => none

def functionStartsWithOperands (node : FuncNode) : List PgExpr → Option (PgExpr × PgExpr × ℕ)
  | [value, pre] =>
    if node.funcid = startsWithFunction ∧ node.funcresulttype = .bool ∧
        node.funcretset = false ∧ node.funcvariadic = false ∧ node.funccollid = 0 ∧
        value.typeMetadata.typeOid = .text ∧ pre.typeMetadata.typeOid = .text then
      some (value, pre, node.inputcollid)
    else none
  | _ => none

structure PgVar where
  varno : ℤ
  varattno : ℤ
  vartype : ExprType
  deriving DecidableEq

/-- The variable under one of the lossless integer casts. -/
def widenedIntegerVar (node : FuncNode) : List PgExpr → Option PgVar
  | [argument] =>
    if node.funcretset = false ∧ node.funcvariadic = false ∧ node.funccollid = 0 ∧
        node.inputcollid = 0 then
      match argument.withoutRelabels with
      | .var varno varattno vartype =>
        if isIntegerWidening node.funcid vartype.typeOid node.funcresulttype then
          some ⟨varno, varattno, vartype⟩
        else none
      | _ => none
    else none
  | _ => none

inductive PgScalarExprRef where
  | var (node : PgVar)
  | const
  | param (paramkind : ParamKind)
  | widenedIntegerVar (node : PgVar)
  deriving DecidableEq

def PgScalarExprRef.parse (expr : PgExpr) : Option PgScalarExprRef :=
  match expr.withoutRelabels with
  | .var varno varattno vartype => some (.var ⟨varno, varattno, vartype⟩)
  | .const _ _ => some .const
  | .param paramkind _ _ => some (.param paramkind)
  | .func node args => (LagoDB.Negotiation.widenedIntegerVar node args).map .widenedIntegerVar
  | _ => none

inductive PgPredicateLeafRef where
  | booleanTest (kind : BooleanTestKind) (value : PgExpr)
  | comparison (op : PgComparisonOp) (left right : PgExpr)
  | nullTest (kind : PgNullTestKind) (value : PgExpr)
  | startsWith (value pre : PgExpr) (inputCollation : ℕ)

/-- The node is one without relabels. -/
def PgPredicateLeafRef.parse : PgExpr → Option PgPredicateLeafRef
  | .op node args =>
    match operatorStartsWithOperands node args with
    | some (value, pre, collation) => some (.startsWith value pre collation)
    | none =>
      match args with
      | [left, right] => some (.comparison node left right)
      | _ => none
  | .booleanTest kind arg => some (.booleanTest kind arg)
  | .nullTest kind argisrow arg => if argisrow then none else some (.nullTest kind arg)
  | .func node args =>
    (functionStartsWithOperands node args).map fun (value, pre, collation) =>
      .startsWith value pre collation
  | _ => none

/-! ## LIKE -/

def likeEscape : UInt8 := 92
def likeAny : UInt8 := 37
def likeOne : UInt8 := 95

inductive LikeToken where
  | literal (byte : UInt8)
  | any
  | one
  deriving DecidableEq

def LikeToken.ofByte (byte : UInt8) : LikeToken :=
  if byte = likeAny then .any else if byte = likeOne then .one else .literal byte

/-- A pattern may not end with its escape character. -/
def likeTokens : Bytes → Option (List LikeToken)
  | [] => some []
  | [byte] => if byte = likeEscape then none else some [.ofByte byte]
  | byte :: next :: rest =>
    if byte = likeEscape then (likeTokens rest).map (.literal next :: ·)
    else (likeTokens (next :: rest)).map (.ofByte byte :: ·)

/-- `nextChar` drops one character of the server encoding. -/
def likeMatch (nextChar : Bytes → Option Bytes) : List LikeToken → Bytes → Bool
  | [], text => text.isEmpty
  | .literal byte :: tokens, head :: text => byte == head && likeMatch nextChar tokens text
  | .literal _ :: _, [] => false
  | .any :: tokens, text => text.tails.any (likeMatch nextChar tokens)
  | .one :: tokens, text => (nextChar text).any (likeMatch nextChar tokens)

/-- The literal bytes of a pattern whose only wildcard is a `%` at its end. -/
def pureLikePrefix : Bytes → Option Bytes
  | [] => none
  | [byte] => if byte = likeAny then some [] else none
  | byte :: next :: rest =>
    if byte = likeEscape then (pureLikePrefix rest).map (next :: ·)
    else if byte = likeOne ∨ byte = likeAny then none
    else (pureLikePrefix (next :: rest)).map (byte :: ·)

attribute [local simp] pureLikePrefix

lemma likeTokens_pureLikePrefix {a p : Bytes} (h : pureLikePrefix a = some p) :
    likeTokens a = some (p.map .literal ++ [.any]) := by
  induction a using pureLikePrefix.induct generalizing p with
  | case1 => cases h
  | case2 =>
    obtain rfl : [] = p := by simpa using h
    rfl
  | case3 b ha => simp [ha] at h
  | case4 n r ih =>
    obtain ⟨t, ht, rfl⟩ := Option.map_eq_some_iff.mp (by simpa using h)
    simp [likeTokens, ih ht]
  | case5 b n r he hw => simp [he, hw] at h
  | case6 b n r he hw ih =>
    obtain ⟨ho, ha⟩ := not_or.mp hw
    obtain ⟨t, ht, rfl⟩ := Option.map_eq_some_iff.mp (by simpa [he, hw] using h)
    simp [likeTokens, he, ih ht, LikeToken.ofByte, ho, ha]

variable (nextChar : Bytes → Option Bytes)

lemma likeMatch_prefix (p t : Bytes) :
    likeMatch nextChar (p.map .literal ++ [.any]) t = p.isPrefixOf t := by
  induction p generalizing t with
  | nil =>
    have he : likeMatch nextChar [] [] = true := rfl
    exact List.any_eq_true.mpr ⟨[], by simp [List.mem_tails], he⟩
  | cons b r ih =>
    cases t with
    | nil => rfl
    | cons head t => simp [likeMatch, ih t, List.isPrefixOf_cons_cons]

/-! ## Values -/

namespace PgValue

def truth : PgValue → Truth
  | some (.scalar (.boolean value)) => some value
  | _ => none

def ofTruth (value : Truth) : PgValue := value.map fun value => .scalar (.boolean value)

def toSql : PgValue → Option SqlValue
  | none => none
  | some (.scalar datum) => some datum.toSql
  | some (.array _) => some .nested

@[simp] lemma truth_ofTruth (v : Truth) : truth (ofTruth v) = v := by
  cases v <;> rfl

end PgValue

def SqlValue.likeTruth :
    Option SqlValue → Option SqlValue → Truth
  | some (.text text), some (.text pattern) =>
    (likeTokens pattern).map fun tokens => likeMatch nextChar tokens text
  | _, _ => none

def PgNullTestKind.test : PgNullTestKind → PgValue → Bool
  | .isNull, value => value.isNone
  | .isNotNull, value => value.isSome

/-- What a running scan reads besides the rows of its relation. -/
structure Environment where
  param : ParamKind → ℕ → PgValue
  outer : ℤ → ℤ → PgValue

/-- What PostgreSQL computes. -/
structure Backend where
  catalog : Catalog
  nextChar : Bytes → Option Bytes
  operator : PgComparisonOp → List PgValue → PgValue
  arrayOperator : PgComparisonOp → Bool → PgValue → PgValue → PgValue
  function : FuncNode → List PgValue → PgValue
  rowNullTest : PgNullTestKind → PgValue → PgValue
  other : ℕ → Environment → (ℤ → PgValue) → List PgValue → PgValue

/-- The built-in operators and functions that pushdown knows by their meaning. -/
structure Backend.Laws (backend : Backend) : Prop where
  comparison : ∀ operator signature, builtinSignature backend.catalog operator = some signature →
    ∀ left right, (backend.operator operator [left, right]).truth =
      signature.kind.truth (backend.catalog.collate operator.inputcollid) left.toSql right.toSql
  booleanEquality :
    builtinSignature backend.catalog booleanEquality = some ⟨.bool, .bool, 60, .equal⟩
  textLike : ∀ operator : PgComparisonOp, operator.opno = textLikeOperator →
    operator.opfuncid = textLikeFunction →
      backend.catalog.isDeterministic operator.inputcollid = true → ∀ text pattern,
        (backend.operator operator [text, pattern]).truth =
          SqlValue.likeTruth backend.nextChar text.toSql pattern.toSql
  textPrefix : ∀ operator : PgComparisonOp, operator.opno = textPrefixOperator →
    operator.opfuncid = startsWithFunction →
      backend.catalog.isDeterministic operator.inputcollid = true → ∀ text pre,
        (backend.operator operator [text, pre]).truth = SqlValue.prefixTruth text.toSql pre.toSql
  startsWith : ∀ function : FuncNode, function.funcid = startsWithFunction →
    backend.catalog.isDeterministic function.inputcollid = true → ∀ text pre,
      (backend.function function [text, pre]).truth = SqlValue.prefixTruth text.toSql pre.toSql
  widening : ∀ (function : FuncNode) source,
    isIntegerWidening function.funcid source function.funcresulttype = true →
      ∀ value, backend.function function [value] = value

namespace PgExpr

mutual

def eval (backend : Backend) (relid : ℤ) (env : Environment) (tuple : ℤ → PgValue) :
    PgExpr → PgValue
  | .var varno varattno _ => if varno = relid then tuple varattno else env.outer varno varattno
  | .const _ value => value
  | .param paramkind paramid _ => env.param paramkind paramid
  | .relabel arg _ => arg.eval backend relid env tuple
  | .func node args => backend.function node (evalAll backend relid env tuple args)
  | .op node args => backend.operator node (evalAll backend relid env tuple args)
  | .scalarArrayOp node scalar array =>
    backend.arrayOperator node.comparisonOp node.useOr (scalar.eval backend relid env tuple)
      (array.eval backend relid env tuple)
  | .bool .and args =>
    .ofTruth (Truth.all ((evalAll backend relid env tuple args).map PgValue.truth))
  | .bool .or args =>
    .ofTruth (Truth.any ((evalAll backend relid env tuple args).map PgValue.truth))
  | .bool .not args =>
    .ofTruth (Truth.not (Truth.all ((evalAll backend relid env tuple args).map PgValue.truth)))
  | .nullTest kind argisrow arg =>
    if argisrow then backend.rowNullTest kind (arg.eval backend relid env tuple)
    else .ofTruth (some (kind.test (arg.eval backend relid env tuple)))
  | .booleanTest kind arg =>
    .ofTruth (some (kind.test (arg.eval backend relid env tuple).truth))
  | .other tag _ args => backend.other tag env tuple (evalAll backend relid env tuple args)

def evalAll (backend : Backend) (relid : ℤ) (env : Environment) (tuple : ℤ → PgValue) :
    List PgExpr → List PgValue
  | [] => []
  | arg :: rest => arg.eval backend relid env tuple :: evalAll backend relid env tuple rest

end

variable (b : Backend) (relid : ℤ) (env : Environment) (t : ℤ → PgValue)

lemma evalAll_eq (args : List PgExpr) :
    evalAll b relid env t args = args.map (eval b relid env t) := by
  induction args with
  | nil => rfl
  | cons arg r ih => rw [evalAll, ih, List.map_cons]

lemma eval_withoutRelabels (e : PgExpr) :
    e.withoutRelabels.eval b relid env t = e.eval b relid env t := by
  induction e using withoutRelabels.induct with
  | case1 arg type ih => rw [withoutRelabels, ih, eval]
  | case2 e h => rw [withoutRelabels.eq_2 e h]

end PgExpr

end LagoDB.Negotiation
