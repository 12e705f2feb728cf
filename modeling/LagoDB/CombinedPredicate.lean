import LagoDB.NormalizedClause

/-!
# Combined predicates

Combining puts the slots of each predicate behind those of the predicates before
it and moves the predicate along. The combination therefore says what its parts
say, and every slot of it still belongs to the expression it was made for.
-/
namespace LagoDB.Negotiation

open SqlLogic Pushdown Iceberg List Combined PredicateExpr PredicateCombination NormalizedPredicate

variable {Row : Type} {k : Backend} {e : ScannedRelation Row}

/-! ## Moving slots -/

/-- The values a predicate reads once its slots have moved. -/
def shifted (values : RuntimeValueBindings) (offset : ℕ) : RuntimeValueBindings :=
  fun slot => values (slot + offset)

mutual

lemma rebase_eval (vs : RuntimeValueBindings) (row : Row) (o : ℕ) :
    ∀ p : FilterExpr, (rebaseRuntimeValues o p).eval (k.semantics e vs) row =
      p.eval (k.semantics e (shifted vs o)) row
  | .alwaysTrue | .alwaysFalse => rfl
  | .strictTrue value | .strictFalse value | .booleanTest _ value | .isNull value
  | .isNotNull value | .isNan value | .isNotNan value => by cases value <;> rfl
  | .comparison _ left right | .startsWith left right | .inSet _ left right => by
    cases left <;> cases right <;> rfl
  | .and children | .or children => by
    simp only [rebaseRuntimeValues, eval, rebaseAll_eval vs row o children]
  | .not child => by
    simp only [rebaseRuntimeValues, eval, rebase_eval vs row o child]

lemma rebaseAll_eval (vs : RuntimeValueBindings) (row : Row) (o : ℕ) :
    ∀ cs : List FilterExpr, evalAll (k.semantics e vs) (rebaseAll o cs) row =
      evalAll (k.semantics e (shifted vs o)) cs row
  | [] => rfl
  | child :: rest => by
    simp only [rebaseAll, evalAll, rebase_eval vs row o child, rebaseAll_eval vs row o rest]

end

lemma rebaseScalar_rebaseScalar (a b : ℕ) (s : ScalarExpr) :
    rebaseScalar b (rebaseScalar a s) = rebaseScalar (a + b) s := by
  cases s <;> simp [rebaseScalar, Nat.add_assoc]

mutual

lemma rebase_rebase (a b : ℕ) : ∀ p : FilterExpr,
    rebaseRuntimeValues b (rebaseRuntimeValues a p) = rebaseRuntimeValues (a + b) p
  | .alwaysTrue | .alwaysFalse => rfl
  | .strictTrue value | .strictFalse value | .booleanTest _ value | .isNull value
  | .isNotNull value | .isNan value | .isNotNan value
  | .comparison _ left right | .startsWith left right | .inSet _ left right => by
    simp only [rebaseRuntimeValues, rebaseScalar_rebaseScalar]
  | .and children | .or children => by
    simp only [rebaseRuntimeValues, rebaseAll_rebaseAll a b children]
  | .not child => by simp only [rebaseRuntimeValues, rebase_rebase a b child]

lemma rebaseAll_rebaseAll (a b : ℕ) : ∀ cs : List FilterExpr,
    rebaseAll b (rebaseAll a cs) = rebaseAll (a + b) cs
  | [] => rfl
  | child :: rest => by simp only [rebaseAll, rebase_rebase a b child, rebaseAll_rebaseAll a b rest]

end

lemma rebaseScalar_zero (s : ScalarExpr) : rebaseScalar 0 s = s := by
  cases s <;> rfl

mutual

lemma rebase_zero : ∀ p : FilterExpr, rebaseRuntimeValues 0 p = p
  | .alwaysTrue | .alwaysFalse => rfl
  | .strictTrue value | .strictFalse value | .booleanTest _ value | .isNull value
  | .isNotNull value | .isNan value | .isNotNan value
  | .comparison _ left right | .startsWith left right | .inSet _ left right => by
    simp only [rebaseRuntimeValues, rebaseScalar_zero]
  | .and children | .or children => by simp only [rebaseRuntimeValues, rebaseAll_zero children]
  | .not child => by simp only [rebaseRuntimeValues, rebase_zero child]

lemma rebaseAll_zero : ∀ cs : List FilterExpr, rebaseAll 0 cs = cs
  | [] => rfl
  | child :: rest => by simp only [rebaseAll, rebase_zero child, rebaseAll_zero rest]

end

variable {f bs : List RuntimeValueExpr}

lemma Backend.Agrees.shifted {env : Environment} {vs : RuntimeValueBindings}
    (h : k.Agrees e env vs (f ++ bs)) : k.Agrees e env (shifted vs f.length) bs := by
  intro s b hs
  refine h (s + f.length) b ?_
  rw [List.getElem?_append_right (Nat.le_add_left ..), Nat.add_sub_cancel, hs]

lemma Backend.Denotes.rebase {p : FilterExpr} {expr : PgExpr} (h : k.Denotes e bs p expr) :
    k.Denotes e (f ++ bs) (rebaseRuntimeValues f.length p) expr := by
  intro env vs row ha
  rw [rebase_eval]
  exact h env _ row ha.shifted

/-! ## Combining -/

/-- What the vectors hold after some of the items. -/
structure Combined.Sound (backend : Backend) (relation : ScannedRelation Row) (acc : Combined) :
    Prop where
  specs : acc.values = acc.bindings.map RuntimeValueExpr.metadata
  denotes : List.Forall₂ (fun node expr => backend.Denotes relation acc.bindings node expr)
    acc.nodes acc.pushedArgs

variable {acc : Combined}

lemma Combined.Sound.add {item : NormalizedPredicate}
    (h : acc.Sound k e) (hi : item.WellFormed k e) : (acc.add item).Sound k e := by
  have hl : acc.values.length = acc.bindings.length := by simp [h.specs]
  have hg : Grows acc.bindings (acc.bindings ++ item.bindings) := by simp [Grows]
  refine ⟨by simp [Combined.add, h.specs, hi.specs], ?_⟩
  refine rel_append (h.denotes.imp fun _ _ hn => hn.of_grows hg) ?_
  rw [hl]
  exact .cons hi.denotes.rebase .nil

variable {its : List NormalizedPredicate}

lemma Combined.Sound.foldl (h : acc.Sound k e) (hit : ∀ item ∈ its, item.WellFormed k e) :
    (its.foldl Combined.add acc).Sound k e := by
  induction its generalizing acc with
  | nil => exact h
  | cons item r ih =>
    obtain ⟨hi, hr⟩ := forall_mem_cons.mp hit
    exact ih (h.add hi) hr

lemma Combined.foldl_pushedArgs (acc : Combined) (its : List NormalizedPredicate) :
    (its.foldl add acc).pushedArgs = acc.pushedArgs ++ its.map pushedExpr := by
  induction its generalizing acc with
  | nil => simp
  | cons item r ih => simp [ih, add]

lemma Combined.Sound.finish (h : acc.Sound k e) (c : PredicateCombination) :
    (acc.finish c).WellFormed k e := by
  refine ⟨h.specs, fun env vs row ha => ?_⟩
  have hv := evalAll_of_denotes h.denotes row ha
  cases c <;>
    simp only [Combined.finish, node, boolop, eval, truth_bool, hv]

def PredicateCombination.truth : PredicateCombination → List Truth → Truth
  | .and, values => Truth.all values
  | .or, values => Truth.any values

lemma combine_spec {c : PredicateCombination} {combined : NormalizedPredicate}
    (hi : ∀ item ∈ its, item.WellFormed k e) (h : combine c its = some combined) :
    combined.WellFormed k e ∧ ∀ env row, k.truth e env row combined.pushedExpr =
      c.truth (its.map fun item => k.truth e env row item.pushedExpr) := by
  match its, h with
  | [item], h =>
    obtain rfl := Option.some.inj h
    refine ⟨hi item mem_cons_self, fun env row => ?_⟩
    cases c
    · exact (Truth.all_singleton _).symm
    · exact (Truth.any_singleton _).symm
  | first :: s :: rest, h =>
    cases h
    have hs : (mk [] [] [] []).Sound k e := ⟨rfl, .nil⟩
    refine ⟨(hs.foldl hi).finish c, fun env row => ?_⟩
    rw [finish, truth_bool, foldl_pushedArgs]
    cases c <;>
      simp [boolop, truth, Function.comp_def]

/-! ## Where slots come from -/

/-- An operand, at any depth, of the boolean operators of an expression. -/
inductive PgExpr.PartOf : PgExpr → PgExpr → Prop
  | refl (expr : PgExpr) : PgExpr.PartOf expr expr
  | child {part arg whole : PgExpr} {boolop : BoolExprType} {args : List PgExpr}
    (hwhole : whole.withoutRelabels = .bool boolop args) (harg : arg ∈ args)
    (hpart : PgExpr.PartOf part arg) : PgExpr.PartOf part whole

/-- The slots of predicates laid out one behind the other. -/
def slotsOf (pieces : List NormalizedPredicate) : List RuntimeValueExpr :=
  pieces.flatMap NormalizedPredicate.bindings

mutual

/-- A predicate is put together from normalized parts of `source`, each moved to
where its own slots start. -/
inductive Assembled (normalizer : RelationExpressionNormalizer) (source : PgExpr) :
    ℕ → FilterExpr → List NormalizedPredicate → Prop
  | piece {part : PgExpr} {normalized : NormalizedPredicate} {offset : ℕ}
    (hpart : part.PartOf source) (hnormalized : normalizer.normalize part = some normalized) :
    Assembled normalizer source offset (rebaseRuntimeValues offset normalized.fragment.root)
      [normalized]
  | node {combination : PredicateCombination} {offset : ℕ} {nodes : List FilterExpr}
    {pieces : List NormalizedPredicate}
    (hnodes : AssembledAll normalizer source offset nodes pieces) :
    Assembled normalizer source offset (combination.node nodes) pieces

inductive AssembledAll (normalizer : RelationExpressionNormalizer) (source : PgExpr) :
    ℕ → List FilterExpr → List NormalizedPredicate → Prop
  | nil {offset : ℕ} : AssembledAll normalizer source offset [] []
  | cons {offset : ℕ} {node : FilterExpr} {nodes : List FilterExpr}
    {pieces rest : List NormalizedPredicate}
    (hnode : Assembled normalizer source offset node pieces)
    (hnodes : AssembledAll normalizer source (offset + (slotsOf pieces).length) nodes rest) :
    AssembledAll normalizer source offset (node :: nodes) (pieces ++ rest)

end

section Assembling

variable {n : RelationExpressionNormalizer} {r : PgExpr}

lemma PgExpr.PartOf.trans {p m w : PgExpr} (h : p.PartOf m) (h' : m.PartOf w) : p.PartOf w := by
  induction h' with
  | refl => exact h
  | child hw ha _ ih => exact .child hw ha ih

mutual

lemma Assembled.widen {w : PgExpr} (hp : r.PartOf w) :
    ∀ {offset root pieces}, Assembled n r offset root pieces → Assembled n w offset root pieces
  | _, _, _, .piece hpi hn => .piece (hpi.trans hp) hn
  | _, _, _, .node hno => .node (hno.widen hp)

lemma AssembledAll.widen {w : PgExpr} (hp : r.PartOf w) :
    ∀ {offset nodes pieces}, AssembledAll n r offset nodes pieces →
      AssembledAll n w offset nodes pieces
  | _, _, _, .nil => .nil
  | _, _, _, .cons hno hn => .cons (hno.widen hp) (hn.widen hp)

end

lemma rebase_node (m : ℕ) (c : PredicateCombination) (ns : List FilterExpr) :
    rebaseRuntimeValues m (c.node ns) = c.node (rebaseAll m ns) := by
  cases c <;> rfl

mutual

lemma Assembled.rebase (m : ℕ) :
    ∀ {offset root pieces}, Assembled n r offset root pieces →
      Assembled n r (offset + m) (rebaseRuntimeValues m root) pieces
  | _, _, _, .piece hp hn => by
    rw [rebase_rebase]
    exact .piece hp hn
  | _, _, _, .node hno => by
    rw [rebase_node]
    exact .node (hno.rebase m)

lemma AssembledAll.rebase (m : ℕ) :
    ∀ {offset nodes pieces}, AssembledAll n r offset nodes pieces →
      AssembledAll n r (offset + m) (rebaseAll m nodes) pieces
  | _, _, _, .nil => .nil
  | _, _, _, .cons hno hn => by
    have hr := hn.rebase m
    rw [Nat.add_right_comm] at hr
    exact .cons (hno.rebase m) hr

end

lemma AssembledAll.snoc : ∀ {o : ℕ} {ns : List FilterExpr} {node : FilterExpr}
    {ps l : List NormalizedPredicate}, AssembledAll n r o ns ps →
      Assembled n r (o + (slotsOf ps).length) node l → AssembledAll n r o (ns ++ [node]) (ps ++ l)
  | o, _, node, _, l, .nil, hl => by
    have hs := AssembledAll.cons hl .nil
    simpa [slotsOf] using hs
  | _, _, _, _, _, .cons hno hn, hl => by
    rw [append_assoc]
    refine .cons hno (hn.snoc ?_)
    simpa [slotsOf, Nat.add_assoc] using hl

/-- A normalized predicate whose slots are those of normalized parts of `source`. -/
def NormalizedPredicate.Sourced (normalizer : RelationExpressionNormalizer) (source : PgExpr)
    (normalized : NormalizedPredicate) : Prop :=
  ∃ pieces, Assembled normalizer source 0 normalized.fragment.root pieces ∧
    normalized.bindings = slotsOf pieces

variable {m : NormalizedPredicate}

lemma normalize_sourced (h : n.normalize r = some m) : m.Sourced n r := by
  refine ⟨[m], ?_, by simp [slotsOf]⟩
  have hp : Assembled n r 0 (rebaseRuntimeValues 0 m.fragment.root) [m] := .piece (.refl r) h
  rwa [rebase_zero] at hp

lemma NormalizedPredicate.Sourced.widen {w : PgExpr} (h : m.Sourced n r) (hp : r.PartOf w) :
    m.Sourced n w := by
  obtain ⟨p, hr, hb⟩ := h
  exact ⟨p, hr.widen hp, hb⟩

section

variable {its : List NormalizedPredicate}
  (hsp : ∀ item ∈ its, item.fragment.values.length = item.bindings.length)
  (hi : ∀ item ∈ its, item.Sourced n r)

include hsp hi

lemma Combined.foldl_assembled {acc : Combined}
    (hl : acc.values.length = acc.bindings.length) {cs : List NormalizedPredicate}
    (hn : AssembledAll n r 0 acc.nodes cs) (hb : acc.bindings = slotsOf cs) :
    ∃ cs, AssembledAll n r 0 (its.foldl add acc).nodes cs ∧
      (its.foldl add acc).bindings = slotsOf cs := by
  induction its generalizing acc cs with
  | nil => exact ⟨cs, hn, hb⟩
  | cons item rest ih =>
    obtain ⟨hs, hsp⟩ := forall_mem_cons.mp hsp
    obtain ⟨⟨l, hr, hla⟩, hi⟩ := forall_mem_cons.mp hi
    have hm := hr.rebase acc.values.length
    rw [hl, hb] at hm
    have hn' : AssembledAll n r 0 (acc.add item).nodes (cs ++ l) := by
      rw [add, hl, hb]
      exact hn.snoc hm
    refine ih hsp hi ?_ hn' ?_
    · simp [add, hl, hs]
    · simp [add, hb, hla, slotsOf]

lemma combine_sourced {c : PredicateCombination} {combined : NormalizedPredicate}
    (h : combine c its = some combined) : combined.Sourced n r := by
  match its, h with
  | [item], h =>
    obtain rfl := Option.some.inj h
    exact hi item mem_cons_self
  | first :: s :: rest, h =>
    cases h
    have hs : AssembledAll n r 0 (mk [] [] [] []).nodes [] := .nil
    obtain ⟨p, hn, hb⟩ := foldl_assembled hsp hi rfl hs rfl
    exact ⟨p, .node hn, hb⟩

end

end Assembling

end LagoDB.Negotiation
