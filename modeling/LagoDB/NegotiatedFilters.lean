import LagoDB.FilterNegotiator

/-!
# What a negotiated filter set selects

Nothing is lost and nothing is kept twice: the residual quals and the rechecks
together are the clauses, taken apart along conjunctions. A row satisfies the
clauses when it passes the filters accepted as exact and the residual quals, and
then it passes every other pushed filter too. Each filter reads its own slots,
and every one of them holds the value it had in the clause it was made for.
-/
namespace LagoDB.Negotiation

open SqlLogic Iceberg ExceptLoop List PushdownContract NegotiatedFilterSet

variable {σ P E Row : Type}

/-! ## The provider's side -/

/-- Slot values of the types a fragment lists. -/
def PredicateFragment.Describes (fragment : PredicateFragment) (values : RuntimeValueBindings) :
    Prop :=
  ∀ slot spec, fragment.values[slot]? = some spec → (values slot).metadata = spec

/-- What a planned predicate selects, for the slot values it is bound with. -/
abbrev Holds (P Row : Type) := P → RuntimeValueBindings → Row → Bool

/-- What a filter plan promises about its fragment. -/
def FilterPlan.Meets (backend : Backend) (relation : ScannedRelation Row) (holds : Holds P Row)
    (fragment : PredicateFragment) : FilterPlan P → Prop
  | .unsupported => True
  | .partialTree planned | .conservative planned => ∀ values, fragment.Describes values →
      Covers (holds planned.predicate values)
        (fragment.root.eval (backend.semantics relation values))
  | .exact planned => ∀ values, fragment.Describes values →
      Exactly (holds planned.predicate values)
        (fragment.root.eval (backend.semantics relation values))

/-- Every plan is marked correctly, in whatever state the session is. -/
def FilterPushdownPlanner.Honest (backend : Backend) (relation : ScannedRelation Row)
    (holds : Holds P Row) (planner : FilterPushdownPlanner σ P E) : Prop :=
  ∀ fragment, Yields (planner.tryPlanFilter fragment)
    fun plan => plan.Meets backend relation holds fragment

def FilterPushdownPlanner.Planned (planner : FilterPushdownPlanner σ P E)
    (fragment : PredicateFragment) (predicate : P) : Prop :=
  ∃ state planned state', planned.predicate = predicate ∧
    (planner.tryPlanFilter fragment state = .ok (.exact planned, state') ∨
      planner.tryPlanFilter fragment state = .ok (.conservative planned, state'))

/-! ## Slots -/

def Backend.bindingValues (backend : Backend) (relation : ScannedRelation Row) (env : Environment)
    (bindings : List RuntimeValueExpr) : RuntimeValueBindings := fun slot =>
  match bindings[slot]? with
  | some binding => ⟨backend.bindingValue relation env binding, binding.metadata⟩
  | none => ⟨none, ⟨⟨.other 0, -1, 0⟩, .constant⟩⟩

lemma bindingValues_agrees (k : Backend) (r : ScannedRelation Row) (env : Environment)
    (bs : List RuntimeValueExpr) : k.Agrees r env (k.bindingValues r env bs) bs := by
  intro s b hs
  simp [Backend.bindingValues, hs]

lemma bindingValues_describes {k : Backend} {r : ScannedRelation Row}
    {n : NormalizedPredicate} (h : n.WellFormed k r) (env : Environment) :
    n.fragment.Describes (k.bindingValues r env n.bindings) := by
  intro s spec hs
  rw [h.specs, List.getElem?_map] at hs
  obtain ⟨b, hb, rfl⟩ := Option.map_eq_some_iff.mp hs
  simp [Backend.bindingValues, hb]

lemma bindingValues_slotsOf (k : Backend) (r : ScannedRelation Row)
    (env : Environment) (b a : List NormalizedPredicate) (p : NormalizedPredicate)
    {s : ℕ} (hsl : s < p.bindings.length) :
    k.bindingValues r env (slotsOf (b ++ p :: a)) ((slotsOf b).length + s) =
      k.bindingValues r env p.bindings s := by
  have hl : (slotsOf (b ++ p :: a))[(slotsOf b).length + s]? = p.bindings[s]? := by
    have hs : slotsOf (b ++ p :: a) = slotsOf b ++ (p.bindings ++ slotsOf a) := by simp [slotsOf]
    rw [hs, List.getElem?_append_right (Nat.le_add_right ..), Nat.add_sub_cancel_left,
      List.getElem?_append_left hsl]
  simp only [Backend.bindingValues, hl]

/-! ## Taking clauses apart -/

mutual

/-- A clause is kept whole or taken apart along its conjunctions. -/
inductive Splits : PgExpr → List PgExpr → Prop
  | whole (expr : PgExpr) : Splits expr [expr]
  | conjunction {expr : PgExpr} {args parts : List PgExpr}
    (hexpr : expr.withoutRelabels = .bool .and args) (hargs : SplitsAll args parts) :
    Splits expr parts

inductive SplitsAll : List PgExpr → List PgExpr → Prop
  | nil : SplitsAll [] []
  | cons {expr : PgExpr} {rest parts restParts : List PgExpr} (hexpr : Splits expr parts)
    (hrest : SplitsAll rest restParts) : SplitsAll (expr :: rest) (parts ++ restParts)

end

lemma SplitsAll.append : ∀ {es e' ps p' : List PgExpr}, SplitsAll es ps →
    SplitsAll e' p' → SplitsAll (es ++ e') (ps ++ p')
  | _, _, _, _, .nil, h' => h'
  | _, _, _, _, .cons he hr, h' => by
    rw [append_assoc]
    exact .cons he (hr.append h')

lemma SplitsAll.of_append : ∀ {es e' ps : List PgExpr}, SplitsAll (es ++ e') ps →
      ∃ left right, ps = left ++ right ∧ SplitsAll es left ∧ SplitsAll e' right
  | [], _, ps, h => ⟨[], ps, rfl, .nil, h⟩
  | _ :: _, _, _, .cons he hre => by
    obtain ⟨left, right, rfl, hl, hr⟩ := SplitsAll.of_append hre
    exact ⟨_, right, (append_assoc ..).symm, .cons he hl, hr⟩

lemma SplitsAll.single {expr : PgExpr} {ps : List PgExpr} (h : Splits expr ps) :
    SplitsAll [expr] ps := by
  simpa using SplitsAll.cons h .nil

/-! ## The negotiated set -/

def NegotiatedFilterSet.qualAt (out : NegotiatedFilterSet P) : FilterQualLocation → Option PgExpr
  | .residual index => out.residual[index]?
  | .recheck index => out.recheck[index]?

section Negotiated

variable (backend k : Backend) (relation r : ScannedRelation Row) (holds : Holds P Row)
  (planner l : FilterPushdownPlanner σ P E)

def NegotiatedFilterSet.passes (out : NegotiatedFilterSet P) (env : Environment) (row : Row)
    (filter : NegotiatedFilter P) : Bool :=
  holds filter.planned (backend.bindingValues relation env (out.slots filter)) row

/-- A filter was planned from parts of the qual it is kept with, and reads their
slots. -/
def NegotiatedFilterSet.Traced (out : NegotiatedFilterSet P) (clauses : List PgExpr)
    (filter : NegotiatedFilter P) : Prop :=
  ∃ qual clause root pieces, out.qualAt filter.qualLocation = some qual ∧ clause ∈ clauses ∧
    qual.PartOf clause ∧ Assembled (backend.normalizer relation) qual 0 root pieces ∧
      out.slots filter = slotsOf pieces ∧
        planner.Planned ⟨root, (slotsOf pieces).map RuntimeValueExpr.metadata⟩ filter.planned

structure Negotiated (clauses : List PgExpr) (out : NegotiatedFilterSet P) : Prop where
  bounded : ∀ filter ∈ out.planned,
    filter.bindingStart + filter.bindingCount ≤ out.bindings.length
  selects : ∀ env row, (∀ clause ∈ clauses, backend.truth relation env row clause = some true) ↔
    (∀ filter ∈ out.planned, filter.effective.contract = .exactRowFilter →
        out.passes backend relation holds env row filter = true) ∧
      ∀ qual ∈ out.residual, backend.truth relation env row qual = some true
  covers : ∀ env row, (∀ clause ∈ clauses, backend.truth relation env row clause = some true) →
    ∀ filter ∈ out.planned, out.passes backend relation holds env row filter = true
  traced : ∀ filter ∈ out.planned, out.Traced backend relation planner clauses filter
  splits : ∃ parts, SplitsAll clauses parts ∧ (out.residual ++ out.recheck).Perm parts

variable {k r holds l} {s : List PgExpr} {out : NegotiatedFilterSet P}

lemma negotiated_new : Negotiated k r holds l [] (.new : NegotiatedFilterSet P) :=
  ⟨by simp [new], by simp [new], by simp [new], by simp [new], [], .nil, .nil⟩

variable {f : NegotiatedFilter P}

lemma NegotiatedFilterSet.Traced.extend {out' : NegotiatedFilterSet P} {m : List PgExpr}
    (h : out.Traced k r l s f) (hs : out'.slots f = out.slots f)
    (hq : ∀ o q, out.qualAt o = some q → out'.qualAt o = some q) :
    out'.Traced k r l (s ++ m) f := by
  obtain ⟨q, c, root, p, hqu, hc, hpa, hr, hpi, hp⟩ := h
  exact ⟨q, c, root, p, hq _ _ hqu, mem_append_left _ hc, hpa, hr, hs.trans hpi, hp⟩

lemma Negotiated.pushResidual (h : Negotiated k r holds l s out) (expr : PgExpr) :
    Negotiated k r holds l (s ++ [expr]) (out.pushResidual expr) := by
  have hqu (location : FilterQualLocation) (q : PgExpr) (hq : out.qualAt location = some q) :
      (out.pushResidual expr).qualAt location = some q := by
    cases location with
    | recheck i => exact hq
    | residual i =>
      obtain ⟨hlt, -⟩ := List.getElem?_eq_some_iff.mp hq
      exact (List.getElem?_append_left hlt).trans hq
  refine ⟨h.bounded, fun env row => ?_, fun env row ht => ?_, fun f hf => ?_, ?_⟩
  · simp only [NegotiatedFilterSet.pushResidual, forall_mem_append, forall_mem_singleton]
    rw [h.selects env row, and_assoc]
    rfl
  · exact h.covers env row (forall_mem_append.mp ht).1
  · exact (h.traced f hf).extend rfl hqu
  · obtain ⟨p, hp, hpe⟩ := h.splits
    refine ⟨p ++ [expr], hp.append (.single (.whole expr)), ?_⟩
    have hm : (out.residual ++ [expr] ++ out.recheck).Perm
        (out.residual ++ out.recheck ++ [expr]) := by
      rw [append_assoc, append_assoc]
      exact perm_append_comm.append_left _
    exact hm.trans (hpe.append_right [expr])

/-- What a planned predicate says about the expression it is accepted for. -/
def Serves (backend : Backend) (relation : ScannedRelation Row) (holds : Holds P Row)
    (contract : PushdownContract) (expr : PgExpr) (normalized : NormalizedPredicate)
    (predicate : P) : Prop :=
  ∀ env row,
    (backend.truth relation env row expr = some true →
      holds predicate (backend.bindingValues relation env normalized.bindings) row = true) ∧
    (contract = .exactRowFilter →
      holds predicate (backend.bindingValues relation env normalized.bindings) row = true →
        backend.truth relation env row expr = some true)

lemma slots_append (out out' : NegotiatedFilterSet P) (m : List RuntimeValueExpr)
    (hb : out'.bindings = out.bindings ++ m)
    (hbo : f.bindingStart + f.bindingCount ≤ out.bindings.length) : out'.slots f = out.slots f := by
  have hd : f.bindingCount ≤ (out.bindings.drop f.bindingStart).length := by
    rw [length_drop]
    omega
  rw [slots, slots, hb, drop_append_of_le_length (by omega), take_append_of_le_length hd]

section

variable (expr : PgExpr) (n : NormalizedPredicate) (d : P) (e : EffectiveFilterContract)

lemma slots_entry (out : NegotiatedFilterSet P) :
    (out.accept expr n d e).slots (out.entry n d e) = n.bindings := by
  simp [slots, accept, entry]

lemma qualAt_entry (out : NegotiatedFilterSet P) :
    (out.accept expr n d e).qualAt (out.entry n d e).qualLocation = some expr := by
  cases hc : e.contract <;>
    simp [qualAt, accept, entry, requiresRecheck, hc]

lemma qualAt_accept {l : FilterQualLocation} {q : PgExpr} (hq : out.qualAt l = some q) :
    (out.accept expr n d e).qualAt l = some q := by
  cases l with
  | residual i | recheck i =>
    obtain ⟨hlt, -⟩ := List.getElem?_eq_some_iff.mp hq
    simp only [qualAt, accept]
    split_ifs
    all_goals first
      | exact hq
      | exact (List.getElem?_append_left hlt).trans hq

lemma accept_perm (out : NegotiatedFilterSet P) : ((out.accept expr n d e).residual ++
      (out.accept expr n d e).recheck).Perm (out.residual ++ out.recheck ++ [expr]) := by
  simp only [accept]
  split_ifs
  · rw [append_assoc]
  · rw [append_assoc, append_assoc]
    exact perm_append_comm.append_left _

end

variable {expr : PgExpr}

lemma Negotiated.accept (h : Negotiated k r holds l s out) {n : NormalizedPredicate} {d : P}
    {e : EffectiveFilterContract} (hw : n.WellFormed k r) (hso : n.Sourced (k.normalizer r) expr)
    (hpl : l.Planned n.fragment d) (hs : Serves k r holds e.contract expr n d) :
    Negotiated k r holds l (s ++ [expr]) (out.accept expr n d e) := by
  have ho (f : NegotiatedFilter P) (hf : f ∈ out.planned) :
      (out.accept expr n d e).slots f = out.slots f :=
    slots_append out _ n.bindings rfl (h.bounded f hf)
  have hp (env : Environment) (row : Row) (f : NegotiatedFilter P) (hf : f ∈ out.planned) :
      (out.accept expr n d e).passes k r holds env row f =
        out.passes k r holds env row f := by
    rw [passes, passes, ho f hf]
  have he (env : Environment) (row : Row) : (out.accept expr n d e).passes k r holds env row
      (out.entry n d e) = holds d (k.bindingValues r env n.bindings) row := by
    rw [passes, slots_entry]
    rfl
  have hm (f : NegotiatedFilter P) (hf : f ∈ (out.accept expr n d e).planned) :
      f ∈ out.planned ∨ f = out.entry n d e := by
    simpa [NegotiatedFilterSet.accept] using hf
  refine ⟨fun f hf => ?_, fun env row => ?_, fun env row ht f hf => ?_, fun f hf => ?_, ?_⟩
  · have hl : (out.accept expr n d e).bindings.length =
        out.bindings.length + n.bindings.length := length_append
    rcases hm f hf with hf | rfl
    · have := h.bounded f hf
      omega
    · exact hl.ge
  · have hexa : (∀ f ∈ (out.accept expr n d e).planned, f.effective.contract = .exactRowFilter →
          (out.accept expr n d e).passes k r holds env row f = true) ↔
        (∀ f ∈ out.planned, f.effective.contract = .exactRowFilter →
          out.passes k r holds env row f = true) ∧
        (e.contract = .exactRowFilter → holds d (k.bindingValues r env n.bindings) row = true) := by
      rw [NegotiatedFilterSet.accept, forall_mem_append, forall_mem_singleton]
      refine and_congr (forall₂_congr fun f hf => ?_) ?_
      · exact imp_congr_right fun _ => by rw [← hp env row f hf]; rfl
      · exact imp_congr_right fun _ => by rw [← he env row]; rfl
    rw [forall_mem_append, forall_mem_singleton, h.selects env row, hexa]
    obtain ⟨hco, hse⟩ := hs env row
    cases hc : e.contract with
    | exactRowFilter =>
      simp only [NegotiatedFilterSet.accept, requiresRecheck, hc, if_true, forall_const]
      have hiff : k.truth r env row expr = some true ↔ holds d
        (k.bindingValues r env n.bindings) row = true := ⟨hco, hse hc⟩
      rw [hiff, and_right_comm]
    | conservativePruning =>
      simp only [NegotiatedFilterSet.accept, requiresRecheck, hc, Bool.false_eq_true, if_false,
        reduceCtorEq, false_implies, and_true, forall_mem_append, forall_mem_singleton, and_assoc]
  · obtain ⟨hcl, hex⟩ := forall_mem_append.mp ht
    rcases hm f hf with hf | rfl
    · rw [hp env row f hf]
      exact h.covers env row hcl f hf
    · rw [he env row]
      exact (hs env row).1 (hex expr mem_cons_self)
  · rcases hm f hf with hf | rfl
    · exact (h.traced f hf).extend (ho f hf) fun _ _ hq => qualAt_accept expr n d e hq
    · obtain ⟨p, hr, hpi⟩ := hso
      refine ⟨expr, expr, n.fragment.root, p, qualAt_entry .., by simp, .refl expr,
        hr, (slots_entry ..).trans hpi, ?_⟩
      rw [← hpi, ← hw.specs]
      exact hpl
  · obtain ⟨a, hpa, hpe⟩ := h.splits
    exact ⟨a ++ [expr], hpa.append (.single (.whole expr)),
      (accept_perm ..).trans (hpe.append_right [expr])⟩

variable {args : List PgExpr}

lemma truth_and (he : expr.withoutRelabels = .bool .and args) (env : Environment) (row : Row) :
    k.truth r env row expr = some true ↔ ∀ arg ∈ args, k.truth r env row arg = some true := by
  rw [← truth_withoutRelabels, he, truth_bool, Truth.all_eq_true, forall_mem_map]

lemma Negotiated.regroup (he : expr.withoutRelabels = .bool .and args)
    (h : Negotiated k r holds l (s ++ args) out) : Negotiated k r holds l (s ++ [expr]) out := by
  have ht (env : Environment) (row : Row) : (∀ c ∈ s ++ [expr], k.truth r env row c = some true) ↔
        ∀ c ∈ s ++ args, k.truth r env row c = some true := by
    rw [forall_mem_append, forall_mem_append, forall_mem_singleton, truth_and he env row]
  refine ⟨h.bounded, fun env row => (ht env row).trans (h.selects env row),
    fun env row htr => h.covers env row ((ht env row).mp htr), fun f hf => ?_, ?_⟩
  · obtain ⟨q, c, root, p, hq, hc, hp, hr⟩ := h.traced f hf
    rcases mem_append.mp hc with hc | ha
    · exact ⟨q, c, root, p, hq, mem_append_left _ hc, hp, hr⟩
    · exact ⟨q, expr, root, p, hq, by simp, .child he ha hp, hr⟩
  · obtain ⟨a, hpa, hpe⟩ := h.splits
    obtain ⟨left, right, rfl, hl, hri⟩ := hpa.of_append
    exact ⟨left ++ right, hl.append (.single (.conjunction he hri)), hpe⟩

end Negotiated

end LagoDB.Negotiation
