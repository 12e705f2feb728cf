import LagoDB.NegotiatedFilters

/-!
# The negotiator's walk

Every branch of the walk adds the clause it was given to what the negotiated set
stands for. A candidate for a wider filter is put together from parts of the
clause and holds wherever the clause does, so a disjunction may be pruned with it
while the clause itself stays a residual qual.
-/
namespace LagoDB.Negotiation

open SqlLogic ExceptLoop List FilterNegotiator Yields

variable {σ P E Row : Type} {b : Backend} {e : ScannedRelation Row}

/-! ## Candidates -/

/-- A filter from parts of an expression that holds wherever the expression does. -/
structure ConservativeCandidate.Widens (backend : Backend) (relation : ScannedRelation Row)
    (expr : PgExpr) (candidate : ConservativeCandidate) : Prop where
  wellFormed : candidate.filter.WellFormed backend relation
  sourced : candidate.filter.Sourced (backend.normalizer relation) expr
  implied : ∀ env row, backend.truth relation env row expr = some true →
    backend.truth relation env row candidate.filter.pushedExpr = some true

lemma truth_or {expr : PgExpr} {args : List PgExpr}
    (he : expr.withoutRelabels = .bool .or args) (env : Environment) (row : Row) :
    b.truth e env row expr = some true ↔ ∃ arg ∈ args, b.truth e env row arg = some true := by
  rw [← truth_withoutRelabels, he, truth_bool, Truth.any_eq_true]
  simp

section Combine

variable {expr : PgExpr} {args : List PgExpr} {cs : List ConservativeCandidate} {w : Bool}
  {c : ConservativeCandidate}

section

variable (hcs : ∀ c ∈ cs, ∃ arg ∈ args, c.Widens b e arg)

include hcs

lemma combineCandidates_sourced {m : PredicateCombination} {boolop : BoolExprType}
    (he : expr.withoutRelabels = .bool boolop args) (h : combineCandidates m cs w = some c) :
    c.filter.WellFormed b e ∧ c.filter.Sourced (b.normalizer e) expr ∧
        ∀ env row, b.truth e env row c.filter.pushedExpr = m.truth (cs.map fun c =>
            b.truth e env row c.filter.pushedExpr) := by
  obtain ⟨f, hf, rfl⟩ := Option.map_eq_some_iff.mp h
  have hwell : ∀ i ∈ cs.map ConservativeCandidate.filter, i.WellFormed b e := by
    rw [forall_mem_map]
    intro c hc
    obtain ⟨arg, -, hw⟩ := hcs c hc
    exact hw.wellFormed
  have hs : ∀ i ∈ cs.map ConservativeCandidate.filter, i.Sourced (b.normalizer e) expr := by
    rw [forall_mem_map]
    intro c hc
    obtain ⟨arg, ha, hw⟩ := hcs c hc
    exact hw.sourced.widen (.child he ha (.refl arg))
  have hl : ∀ i ∈ cs.map ConservativeCandidate.filter,
    i.fragment.values.length = i.bindings.length := fun i hi => by simp [(hwell i hi).specs]
  obtain ⟨hco, ht⟩ := combine_spec hwell hf
  refine ⟨hco, combine_sourced hl hs hf, fun env row => ?_⟩
  rw [ht env row, map_map]
  rfl

lemma combineCandidates_and (he : expr.withoutRelabels = .bool .and args)
    (h : combineCandidates .and cs w = some c) : c.Widens b e expr := by
  obtain ⟨hwe, hs, ht⟩ := combineCandidates_sourced hcs he h
  refine ⟨hwe, hs, fun env row het => ?_⟩
  rw [ht env row, PredicateCombination.truth, Truth.all_eq_true, forall_mem_map]
  intro c hc
  obtain ⟨arg, ha, hw⟩ := hcs c hc
  exact hw.implied env row ((truth_and he env row).mp het arg ha)

lemma combineCandidates_or (he : expr.withoutRelabels = .bool .or args)
    (har : ∀ arg ∈ args, ∃ c ∈ cs, ConservativeCandidate.Widens b e arg c)
    (h : combineCandidates .or cs w = some c) : c.Widens b e expr := by
  obtain ⟨hwe, hs, ht⟩ := combineCandidates_sourced hcs he h
  refine ⟨hwe, hs, fun env row het => ?_⟩
  obtain ⟨arg, harg, ha⟩ := (truth_or he env row).mp het
  obtain ⟨c, hc, hw⟩ := har arg harg
  rw [ht env row, PredicateCombination.truth, Truth.any_eq_true]
  exact ⟨_, mem_map_of_mem hc, hw.implied env row ha⟩

end

end Combine

section Candidates

variable (accepts : PredicateFragment → StateT σ (Except E) Bool)

lemma candidateDirect_widens (laws : b.Laws) {expr : PgExpr} (ht : b.Typed e expr)
    {o : StateT σ (Except E) (Option ConservativeCandidate)}
    (ho : Yields o fun r => ∀ c ∈ r, c.Widens b e expr) :
    Yields (candidateDirect (b.normalizer e).normalize accepts expr o)
      fun r => ∀ c ∈ r, c.Widens b e expr := by
  rw [candidateDirect]
  split
  next n hn =>
    have ha : Yields (accepts n.fragment) fun _ => True := fun _ _ _ _ => trivial
    refine ha.bind fun a _ => ?_
    cases a with
    | false => exact ho
    | true =>
      obtain ⟨hw, hp⟩ := normalize_spec laws ht hn
      refine pure ?_
      rintro _ ⟨⟩
      exact ⟨hw, normalize_sourced hn, fun env row htr => by rwa [hp]⟩
  next => exact ho

mutual

lemma candidateFromBoolean_widens (laws : b.Laws) (o : PgExpr) : ∀ expr : PgExpr,
    expr.withoutRelabels = o.withoutRelabels → b.Typed e expr →
      Yields (candidateFromBoolean (b.normalizer e).normalize accepts expr)
        fun r => ∀ c ∈ r, c.Widens b e o
  | .relabel arg _, he, ht => by
    exact candidateFromBoolean_widens laws o arg he ht
  | .bool .and args, he, ht => by
    refine (candidatesOfSome_widens laws args ht).bind fun cs hca => ?_
    exact pure fun c hc => combineCandidates_and hca he.symm hc
  | .bool .or args, he, ht => by
    refine (candidatesOfAll_widens laws args ht).bind fun r hr => ?_
    cases r with
    | none => exact pure (by simp)
    | some cs =>
      obtain ⟨hca, ha⟩ := hr cs rfl
      exact pure fun c hc => combineCandidates_or hca he.symm ha hc
  | .bool .not _, _, _ | .const .., _, _ | .var .., _, _ | .param .., _, _ | .op .., _, _
  | .func .., _, _ | .scalarArrayOp .., _, _ | .nullTest .., _, _ | .booleanTest .., _, _
  | .other .., _, _ => by
    rw [candidateFromBoolean]
    · exact pure (by simp)
    all_goals simp

lemma candidatesOfSome_widens (laws : b.Laws) : ∀ args : List PgExpr, b.TypedAll e args →
      Yields (candidatesOfSome (b.normalizer e).normalize accepts args)
      fun cs => ∀ c ∈ cs, ∃ arg ∈ args, ConservativeCandidate.Widens b e arg c
  | [], _ => pure (by simp)
  | child :: rest, ht => by
    have hch := candidateDirect_widens accepts laws ht.1
      (candidateFromBoolean_widens laws child child rfl ht.1)
    refine hch.bind fun f hf => ?_
    refine (candidatesOfSome_widens laws rest ht.2).bind fun cs hca => ?_
    refine pure fun c hc => ?_
    rcases mem_append.mp hc with hc | hc
    · exact ⟨child, mem_cons_self, hf c (Option.mem_toList.mp hc)⟩
    · obtain ⟨arg, ha, hw⟩ := hca c hc
      exact ⟨arg, mem_cons_of_mem child ha, hw⟩

lemma candidatesOfAll_widens (laws : b.Laws) : ∀ args : List PgExpr, b.TypedAll e args →
      Yields (candidatesOfAll (b.normalizer e).normalize accepts args)
      fun r => ∀ cs ∈ r, (∀ c ∈ cs, ∃ arg ∈ args, ConservativeCandidate.Widens b e arg c) ∧
        ∀ arg ∈ args, ∃ c ∈ cs, ConservativeCandidate.Widens b e arg c
  | [], _ => pure (by simp)
  | child :: rest, ht => by
    have hc := candidateDirect_widens accepts laws ht.1
      (candidateFromBoolean_widens laws child child rfl ht.1)
    refine hc.bind fun f hfou => ?_
    cases f with
    | none => exact pure (by simp)
    | some c =>
      refine (candidatesOfAll_widens laws rest ht.2).bind fun r hr => ?_
      refine pure fun cs hca => ?_
      obtain ⟨t, hot, rfl⟩ := Option.map_eq_some_iff.mp hca
      obtain ⟨hb, hfo⟩ := hr t hot
      have hf := hfou c rfl
      constructor
      · rw [forall_mem_cons]
        refine ⟨⟨child, mem_cons_self, hf⟩, fun o ho => ?_⟩
        obtain ⟨arg, ha, hw⟩ := hb o ho
        exact ⟨arg, mem_cons_of_mem child ha, hw⟩
      · rw [forall_mem_cons]
        refine ⟨⟨c, mem_cons_self, hf⟩, fun arg ha => ?_⟩
        obtain ⟨o, ho, hw⟩ := hfo arg ha
        exact ⟨o, mem_cons_of_mem c ho, hw⟩

end

end Candidates

/-! ## The clauses of a scan -/

/-- The clauses a scan has to check: a gating node checks the pseudoconstant ones. -/
def scanClauses (rinfos : List RestrictInfo) : List PgExpr :=
  (rinfos.filter fun rinfo => !rinfo.pseudoconstant).map RestrictInfo.clause

lemma scanClauses_append (rs m : List RestrictInfo) :
    scanClauses (rs ++ m) = scanClauses rs ++ scanClauses m := by
  simp [scanClauses]

/-! ## Accepting -/

section Walk

variable {holds : Holds P Row} {neg : FilterNegotiator σ P E} {l : List PgExpr}
  {out : NegotiatedFilterSet P}

lemma tryPlanFilter_planned (hh : neg.planner.Honest b e holds) (f : PredicateFragment) :
    Yields (neg.planner.tryPlanFilter f) fun plan => plan.Meets b e holds f ∧ ∀ p, plan = .exact p ∨
      plan = .conservative p → neg.planner.Planned f p.predicate := by
  intro s plan s' hp
  refine ⟨hh f s plan s' hp, fun p ha => ?_⟩
  refine ⟨s, p, s', rfl, ?_⟩
  rcases ha with rfl | rfl
  · exact .inl hp
  · exact .inr hp

variable {n : NormalizedPredicate}

section

variable (hw : n.WellFormed b e)

include hw

lemma NormalizedPredicate.WellFormed.eval_eq (env : Environment) (row : Row) :
    n.fragment.root.eval (b.semantics e (b.bindingValues e env n.bindings)) row =
      b.truth e env row n.pushedExpr :=
  hw.denotes env _ row (bindingValues_agrees b e env n.bindings)

lemma serves_of_covers {expr : PgExpr} {p : P}
    (hco : ∀ vs, n.fragment.Describes vs → Covers (holds p vs)
      (n.fragment.root.eval (b.semantics e vs)))
    (hi : ∀ env row, b.truth e env row expr = some true →
      b.truth e env row n.pushedExpr = some true) :
    Serves b e holds .conservativePruning expr n p := by
  intro env row
  refine ⟨fun ht => ?_, fun hc => by cases hc⟩
  refine hco _ (bindingValues_describes hw env) row ?_
  rw [hw.eval_eq env row]
  exact hi env row ht

lemma serves_of_exactly {p : P} (c : PushdownContract)
    (he : ∀ vs, n.fragment.Describes vs → Exactly (holds p vs)
      (n.fragment.root.eval (b.semantics e vs))) : Serves b e holds c n.pushedExpr n p := by
  intro env row
  have hiff := he _ (bindingValues_describes hw env) row
  rw [hw.eval_eq env row] at hiff
  exact ⟨hiff.mpr, fun _ => hiff.mp⟩

end

variable {o : PgExpr}

lemma accept_negotiated (h : Negotiated b e holds neg.planner l out) {p : PlannedFilter P}
    {c : PushdownContract} (hw : n.WellFormed b e) (hs : n.Sourced (b.normalizer e) o)
    (hp : neg.planner.Planned n.fragment p.predicate) (hse : Serves b e holds c o n p.predicate) :
    Yields (neg.accept o n p c out) (Negotiated b e holds neg.planner (l ++ [o])) := by
  have hr : Yields (neg.rowFilter n.pushedExpr p.evaluation) fun _ => True := fun _ _ _ _ => trivial
  exact hr.bind fun _ _ => pure (h.accept hw hs hp hse)

/-! ## One clause -/

variable (laws : b.Laws) (hh : neg.planner.Honest b e holds) (hnz : neg.normalizer = b.normalizer e)

include laws hh hnz

lemma negotiateDirect_negotiated (ht : b.Typed e o) (h : Negotiated b e holds neg.planner l out)
    {t : NegotiatedFilterSet P → StateT σ (Except E) (NegotiatedFilterSet P)}
    (ho : Yields (t out) (Negotiated b e holds neg.planner (l ++ [o]))) :
    Yields (neg.negotiateDirect o t out) (Negotiated b e holds neg.planner (l ++ [o])) := by
  rw [negotiateDirect]
  split
  next n hn =>
    rw [hnz] at hn
    obtain ⟨hw, rfl⟩ := normalize_spec laws ht hn
    have hs := normalize_sourced hn
    refine (tryPlanFilter_planned hh n.fragment).bind fun plan hpl => ?_
    obtain ⟨hm, hp⟩ := hpl
    cases plan with
    | exact p =>
      exact accept_negotiated h hw hs (hp p (.inl rfl)) (serves_of_exactly hw .exactRowFilter hm)
    | conservative p =>
      exact accept_negotiated h hw hs (hp p (.inr rfl)) (serves_of_covers hw hm fun _ _ htr => htr)
    | partialTree | unsupported => exact ho
  next => exact ho

lemma negotiateOr_negotiated {args : List PgExpr} (ho : o.withoutRelabels = .bool .or args)
    (ht : b.TypedAll e args) (h : Negotiated b e holds neg.planner l out) :
    Yields (neg.negotiateOr o args out) (Negotiated b e holds neg.planner (l ++ [o])) := by
  have hr := pure (ε := E) (σ := σ) (h.pushResidual o)
  rw [negotiateOr, hnz]
  refine (candidatesOfAll_widens _ laws args ht).bind fun r hre => ?_
  cases r with
  | none => exact hr
  | some cs =>
    obtain ⟨hca, ha⟩ := hre cs rfl
    simp only
    split
    next => exact hr
    next c hc =>
      have hw := combineCandidates_or hca ho ha hc
      split_ifs
      · refine (tryPlanFilter_planned hh c.filter.fragment).bind fun plan hpl => ?_
        obtain ⟨hm, hp⟩ := hpl
        cases plan with
        | exact p =>
          exact accept_negotiated h hw.wellFormed hw.sourced (hp p (.inl rfl))
            (serves_of_covers hw.wellFormed (fun v hv => (hm v hv).covers) hw.implied)
        | conservative p =>
          exact accept_negotiated h hw.wellFormed hw.sourced (hp p (.inr rfl))
            (serves_of_covers hw.wellFormed hm hw.implied)
        | partialTree | unsupported => exact hr
      · exact hr

mutual

lemma negotiateBoolean_negotiated (o : PgExpr) : ∀ (expr : PgExpr)
    {l : List PgExpr} {out : NegotiatedFilterSet P},
    expr.withoutRelabels = o.withoutRelabels → b.Typed e expr →
      Negotiated b e holds neg.planner l out → Yields (neg.negotiateBoolean o expr out)
          (Negotiated b e holds neg.planner (l ++ [o]))
  | .relabel arg _, _, _, he, ht, h => by
    exact negotiateBoolean_negotiated o arg he ht h
  | .bool .and args, _, _, he, ht, h => by
    exact (negotiateAll_negotiated args ht h).mono fun _ ha => ha.regroup he.symm
  | .bool .or args, _, _, he, ht, h => by
    exact negotiateOr_negotiated laws hh hnz he.symm ht h
  | .bool .not _, _, _, _, _, h | .const .., _, _, _, _, h | .var .., _, _, _, _, h
  | .param .., _, _, _, _, h | .op .., _, _, _, _, h | .func .., _, _, _, _, h
  | .scalarArrayOp .., _, _, _, _, h | .nullTest .., _, _, _, _, h
  | .booleanTest .., _, _, _, _, h | .other .., _, _, _, _, h => by
    rw [negotiateBoolean]
    · exact pure (h.pushResidual o)
    all_goals simp

lemma negotiateAll_negotiated : ∀ (args : List PgExpr) {l : List PgExpr}
    {out : NegotiatedFilterSet P}, b.TypedAll e args → Negotiated b e holds neg.planner l out →
        Yields (neg.negotiateAll args out) (Negotiated b e holds neg.planner (l ++ args))
  | [], _, _, _, h => by
    rw [append_nil]
    exact pure h
  | child :: rest, l, _, ht, h => by
    have hc := negotiateDirect_negotiated laws hh hnz ht.1 h
      (negotiateBoolean_negotiated child child rfl ht.1 h)
    refine hc.bind fun out' h' => ?_
    have hr := negotiateAll_negotiated rest ht.2 h'
    rwa [append_assoc] at hr

end

/-! ## All clauses -/

lemma negotiateClause_negotiated {r : RestrictInfo} (ht : b.Typed e r.clause)
    (s : RestrictInfo → ScanClauseSource) (h : Negotiated b e holds neg.planner l out) :
    Yields (neg.negotiateClause s out r)
      (Negotiated b e holds neg.planner (l ++ scanClauses [r])) := by
  rw [negotiateClause]
  cases hp : r.pseudoconstant with
  | true =>
    have hn : scanClauses [r] = [] := by simp [scanClauses, hp]
    rw [hn, append_nil, if_pos rfl]
    exact pure h
  | false =>
    have ho : scanClauses [r] = [r.clause] := by simp [scanClauses, hp]
    rw [ho, if_neg Bool.false_ne_true]
    split_ifs
    · exact pure (h.pushResidual r.clause)
    · exact negotiateDirect_negotiated laws hh hnz ht h
        (negotiateBoolean_negotiated laws hh hnz _ _ rfl ht h)

lemma negotiateWithSource_negotiated {rs : List RestrictInfo}
    (ht : ∀ r ∈ rs, b.Typed e r.clause) (s : RestrictInfo → ScanClauseSource) :
    Yields (neg.negotiateWithSource rs s) (Negotiated b e holds neg.planner (scanClauses rs)) := by
  have hs : ∀ r ∈ rs, ∀ d out, Negotiated b e holds neg.planner (scanClauses d) out →
        Yields (neg.negotiateClause s out r) (Negotiated b e holds neg.planner
            (scanClauses (d ++ [r]))) := by
    intro r hr d out h
    rw [scanClauses_append]
    exact negotiateClause_negotiated laws hh hnz (ht r hr) s h
  exact foldlM hs [] .new negotiated_new

end Walk

end LagoDB.Negotiation
