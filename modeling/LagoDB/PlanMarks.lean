import LagoDB.PredicatePlan

/-!
# What a mark says about a predicate

A plan's mark also bounds the shape of its predicate: what may be negated, what
may not, what may only widen. Such shapes are kept by AND and OR, and a negation
reaches only what its mark allows to be complemented. So what the leaves' marks
say holds of every tree the walk returns.
-/
namespace LagoDB.Pushdown

open List Tally Option

variable {S O P E : Type} {pl : PredicatePlanner S O P E} {ps : List (PredicatePlan P)}

lemma forall_plans {p : PredicatePlan P → Prop} {cs : List (PredicateExpr S O)}
    (h : List.Forall₂ (fun _ plan => p plan) cs ps) : ∀ plan ∈ ps, p plan := by
  induction h with
  | nil => exact fun _ h => nomatch h
  | cons hh _ ih => exact forall_mem_cons.mpr ⟨hh, ih⟩

open PredicatePlan

variable (e : PredicateExpr S O)

/-- Leaves that are all exact leave nothing but exact and widened trees. -/
lemma planWith_exact_or_widened
    (ls : ∀ l ∈ e.plannedLeaves, ∀ plan, l.planWith pl = .ok plan → plan.isExact = true)
    (plan : PredicatePlan P) (h : e.planWith pl = .ok plan) :
    plan.isExact = true ∨ plan.isWidened = true := by
  have hf {ps : List (PredicatePlan P)} (combine : List P → P)
      (hpl : ∀ plan ∈ ps, plan.isExact = true ∨ plan.isWidened = true) :
      ((of ps).finish combine).isExact = true ∨ ((of ps).finish combine).isWidened = true := by
    unfold finish
    split_ifs with he hpa hb ho
    · exact .inr rfl
    · exact .inr rfl
    · exact .inl rfl
    · exact .inl rfl
    · refine absurd (all_eq_true.mpr fun plan hp => ?_) ho
      have hn : ps.any isWidened = false := Bool.eq_false_iff.mpr hpa
      exact (hpl plan hp).resolve_right (any_eq_false.mp hn plan hp)
  refine planWith_induction (motive := fun _ plan => plan.isExact = true ∨ plan.isWidened = true)
    ⟨?_, ?_, ?_, ?_⟩ e (fun l hl plan hp => .inl (ls l hl plan hp)) plan h
  · intro c ps hc
    rw [conjunction_eq]
    exact hf _ (forall_plans hc)
  · intro c ps hc
    rw [disjunction_eq]
    split_ifs
    · exact .inr rfl
    · exact hf _ (forall_plans hc)
  · intro ch plan _
    cases plan with
    | exact p => exact .inl rfl
    | _ => exact .inr rfl
  · exact fun _ _ _ hch => hch

lemma plannedLeaves_leaf {l : PredicateExpr S O} (h : l.isLeaf = true) : l.plannedLeaves = [l] := by
  cases l with
  | and | or | not => cases h
  | _ => rfl

/-- A tree is marked exact only when all of its comparisons are. -/
lemma planWith_exact_comparisons (p : P) (h : e.planWith pl = .ok (.exact p)) :
    ∀ op left right, .comparison op left right ∈ e.plannedLeaves →
      ∃ l, pl.comparison op left right = .ok (.exact l) := by
  let motive (e : PredicateExpr S O) (plan : PredicatePlan P) : Prop :=
    ∀ p, plan = .exact p → ∀ op left right, .comparison op left right ∈ e.plannedLeaves →
        ∃ l, pl.comparison op left right = .ok (.exact l)
  have hf {c : List (PredicateExpr S O)} {ps : List (PredicatePlan P)}
      {combine : List P → P} {p : P} (hc : List.Forall₂ motive c ps)
      (he : (of ps).finish combine = .exact p) :
      ∀ op left right, .comparison op left right ∈ PredicateExpr.plannedLeavesAll c →
          ∃ l, pl.comparison op left right = .ok (.exact l) := by
    have ha : ∀ plan ∈ ps, plan.isExact = true ∧ plan.isComplementable = true := by
      unfold finish at he
      split_ifs at he with hem hpa hb honl
      rw [Bool.and_eq_true] at hb
      exact fun plan hp => ⟨all_eq_true.mp hb.1 plan hp, all_eq_true.mp hb.2 plan hp⟩
    clear he
    induction hc with
    | nil => exact fun _ _ _ hl => nomatch hl
    | @cons ch plan c ps hch _ ih =>
      intro op left right hl
      obtain ⟨hm, hco⟩ := ha plan mem_cons_self
      rcases mem_append.mp hl with hh | hr
      · cases plan with
        | exact p => exact hch p rfl op left right hh
        | exactNoComplement p => cases hco
        | _ => cases hm
      · exact ih (fun plan hp => ha plan (mem_cons_of_mem _ hp)) op left right hr
  refine planWith_induction (motive := motive) ⟨?_, ?_, ?_, ?_⟩ e ?_ _ h p rfl
  · intro c ps hc p he
    rw [conjunction_eq] at he
    exact hf hc he
  · intro c ps hc p he
    rw [disjunction_eq] at he
    split_ifs at he
    exact hf hc he
  · intro ch plan hch p he op left right hl
    cases plan with
    | exact cp =>
      by_cases ht : ∃ k v, ch = .booleanTest k v
      · obtain ⟨k, v, rfl⟩ := ht
        cases mem_singleton.mp hl
      · rw [plannedLeaves_not fun k v hs => ht ⟨k, v, hs⟩] at hl
        exact hch cp rfl op left right hl
    | _ => cases he
  · exact fun k v plan hch => hch
  · intro leaf hl plan hp p he op left right ho
    rw [plannedLeaves_leaf (plannedLeaves_isLeaf e leaf hl), mem_singleton] at ho
    subst ho he
    exact ⟨p, hp⟩

/-- What each mark says about the predicate itself. -/
def PredicatePlan.Graded (covering exact complementable : P → Prop) : PredicatePlan P → Prop
  | .unsupported => True
  | .partialTree predicate | .conservative predicate => covering predicate
  | .exact predicate => complementable predicate
  | .exactNoComplement predicate => exact predicate

/-- A property of predicates that AND and OR keep. -/
structure Closed (planner : PredicatePlanner S O P E) (property : P → Prop) : Prop where
  conjunction : ∀ predicates, (∀ p ∈ predicates, property p) →
    property (planner.conjunction predicates)
  disjunction : ∀ predicates, (∀ p ∈ predicates, property p) →
    property (planner.disjunction predicates)

structure GradeLaws (planner : PredicatePlanner S O P E)
    (covering exact complementable : P → Prop) : Prop where
  closed_covering : Closed planner covering
  closed_exact : Closed planner exact
  closed_complementable : Closed planner complementable
  covering_of_exact : ∀ p, exact p → covering p
  exact_of_complementable : ∀ p, complementable p → exact p
  negate : ∀ p, complementable p → complementable (planner.negate p)

section Graded

variable {v exact l : P → Prop}

section

variable (h : ∀ plan ∈ ps, plan.Graded v exact l)

include h

lemma accepted_covering (laws : GradeLaws pl v exact l) :
    ∀ p ∈ ps.filterMap intoPredicate, v p := by
  intro p hp
  obtain ⟨plan, hpl, hpr⟩ := mem_filterMap.mp hp
  have hg := h plan hpl
  cases plan with
  | unsupported => cases hpr
  | partialTree | conservative => exact some.inj hpr ▸ hg
  | exact o =>
    exact some.inj hpr ▸ laws.covering_of_exact _ (laws.exact_of_complementable _ hg)
  | exactNoComplement o => exact some.inj hpr ▸ laws.covering_of_exact _ hg

lemma accepted_exact (laws : GradeLaws pl v exact l) (he : ps.all isExact = true) :
    ∀ p ∈ ps.filterMap intoPredicate, exact p := by
  intro p hp
  obtain ⟨plan, hpl, hpr⟩ := mem_filterMap.mp hp
  have hg := h plan hpl
  have hm := all_eq_true.mp he plan hpl
  cases plan with
  | exact o => exact some.inj hpr ▸ laws.exact_of_complementable _ hg
  | exactNoComplement o => exact some.inj hpr ▸ hg
  | _ => cases hm

lemma accepted_complementable (he : ps.all isExact = true) (hc : ps.all isComplementable = true) :
    ∀ p ∈ ps.filterMap intoPredicate, l p := by
  intro p hp
  obtain ⟨plan, hpl, hpr⟩ := mem_filterMap.mp hp
  have hg := h plan hpl
  have hm := all_eq_true.mp he plan hpl
  have hm' := all_eq_true.mp hc plan hpl
  cases plan with
  | exact o => exact some.inj hpr ▸ hg
  | exactNoComplement o => cases hm'
  | _ => cases hm

lemma finish_graded (laws : GradeLaws pl v exact l) {c : List P → P}
    (hc : ∀ prop, Closed pl prop → ∀ rs, (∀ p ∈ rs, prop p) → prop (c rs)) :
    ((of ps).finish c).Graded v exact l := by
  unfold finish
  split_ifs with he hp hb ho
  · trivial
  · exact hc _ laws.closed_covering _ (accepted_covering h laws)
  · obtain ⟨ha, hco⟩ := Bool.and_eq_true_iff.mp hb
    exact hc _ laws.closed_complementable _ (accepted_complementable h ha hco)
  · exact hc _ laws.closed_exact _ (accepted_exact h laws ho)
  · exact hc _ laws.closed_covering _ (accepted_covering h laws)

end

/-- The mark of a tree says of its predicate what it says of a leaf's. -/
lemma planWith_graded (laws : GradeLaws pl v exact l) (e : PredicateExpr S O)
    (ls : ∀ leaf ∈ e.plannedLeaves, ∀ plan, leaf.planWith pl = .ok plan → plan.Graded v exact l)
    (plan : PredicatePlan P) (h : e.planWith pl = .ok plan) : plan.Graded v exact l := by
  refine planWith_induction (motive := fun _ plan => plan.Graded v exact l)
    ⟨?_, ?_, ?_, ?_⟩ e ls plan h
  · intro c ps hc
    rw [conjunction_eq]
    exact finish_graded (forall_plans hc) laws (fun _ hcl => hcl.conjunction)
  · intro c ps hc
    rw [disjunction_eq]
    split_ifs
    · trivial
    · exact finish_graded (forall_plans hc) laws (fun _ hcl => hcl.disjunction)
  · intro ch plan hch
    cases plan with
    | exact p => exact laws.negate p hch
    | _ => trivial
  · exact fun _ _ _ hch => hch

end Graded

end LagoDB.Pushdown
