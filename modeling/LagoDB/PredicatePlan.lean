import LagoDB.SqlLogic
import LagoDB.ExceptLoop
import Mathlib.Data.Int.Notation
import Mathlib.Data.List.Forall2

/-!
# The predicate plan algebra

A provider plans the leaves of a predicate tree and says of each plan what it
stands for. The shared tree walk combines those plans: an AND may leave out what
is unsupported, an OR may not, and a NOT needs a plan that may be complemented.

The walk is sound for three-valued SQL: whatever a tree's plan is marked as, its
filter selects exactly the rows on which the tree is TRUE, or covers them.
-/
namespace LagoDB.Pushdown

open SqlLogic ExceptLoop Truth

/-! ## Predicate trees -/

inductive BooleanTestKind where
  | isTrue
  | isNotTrue
  | isFalse
  | isNotFalse
  | isUnknown
  | isNotUnknown
  deriving DecidableEq

namespace BooleanTestKind

def negated : BooleanTestKind → BooleanTestKind
  | .isTrue => .isNotTrue
  | .isNotTrue => .isTrue
  | .isFalse => .isNotFalse
  | .isNotFalse => .isFalse
  | .isUnknown => .isNotUnknown
  | .isNotUnknown => .isUnknown

/-- The two-valued meaning of `value IS [NOT] TRUE | FALSE | UNKNOWN`. -/
def test : BooleanTestKind → Truth → Bool
  | .isTrue, value => value == some true
  | .isNotTrue, value => value != some true
  | .isFalse, value => value == some false
  | .isNotFalse, value => value != some false
  | .isUnknown, value => value == none
  | .isNotUnknown, value => value != none

lemma test_negated (kind : BooleanTestKind) (v : Truth) : kind.negated.test v = !kind.test v := by
  cases kind <;> simp [negated, test, bne]

end BooleanTestKind

/-- Scalars `S` and comparison operators `O` are those of one specialization. -/
inductive PredicateExpr (S O : Type) where
  | alwaysTrue
  | alwaysFalse
  | strictTrue (value : S)
  | strictFalse (value : S)
  | comparison (operator : O) (left right : S)
  | booleanTest (kind : BooleanTestKind) (value : S)
  | isNull (value : S)
  | isNotNull (value : S)
  | isNan (value : S)
  | isNotNan (value : S)
  | startsWith (value pre : S)
  | inSet (operator : O) (value set : S)
  | and (children : List (PredicateExpr S O))
  | or (children : List (PredicateExpr S O))
  | not (child : PredicateExpr S O)

open PredicateExpr

variable {S O P E Row : Type}

/-- What PostgreSQL computes of scalars on one row with its runtime values. -/
structure ScalarSemantics (S O Row : Type) where
  isNull : S → Row → Bool
  boolean : S → Row → Truth
  compare : O → S → S → Row → Truth
  isNan : S → Row → Truth
  startsWith : S → S → Row → Truth
  inSet : O → S → S → Row → Truth

namespace PredicateExpr

/-- Neither AND, OR nor NOT. -/
def isLeaf : PredicateExpr S O → Bool
  | .and _ | .or _ | .not _ => false
  | _ => true

mutual

/-- The SQL value of a tree. A strict constant is NULL on a NULL input. -/
def eval (sem : ScalarSemantics S O Row) : PredicateExpr S O → Row → Truth
  | .alwaysTrue, _ => some true
  | .alwaysFalse, _ => some false
  | .strictTrue value, row => if sem.isNull value row then none else some true
  | .strictFalse value, row => if sem.isNull value row then none else some false
  | .comparison operator left right, row => sem.compare operator left right row
  | .booleanTest kind value, row => some (kind.test (sem.boolean value row))
  | .isNull value, row => some (sem.isNull value row)
  | .isNotNull value, row => some (!sem.isNull value row)
  | .isNan value, row => sem.isNan value row
  | .isNotNan value, row => Truth.not (sem.isNan value row)
  | .startsWith value pre, row => sem.startsWith value pre row
  | .inSet operator value set, row => sem.inSet operator value set row
  | .and children, row => all (evalAll sem children row)
  | .or children, row => any (evalAll sem children row)
  | .not child, row => Truth.not (child.eval sem row)

def evalAll (sem : ScalarSemantics S O Row) : List (PredicateExpr S O) → Row → List Truth
  | [], _ => []
  | child :: rest, row => child.eval sem row :: evalAll sem rest row

end

end PredicateExpr

/-! ## Plans -/

inductive PredicatePlan (P : Type) where
  | unsupported
  /-- A widened tree that leaves out at least one child. -/
  | partialTree (predicate : P)
  | conservative (predicate : P)
  | exact (predicate : P)
  /-- Exact, but its native complement does not respect NULL. -/
  | exactNoComplement (predicate : P)

open PredicatePlan

/-- The accumulators of `conjunction` and `disjunction`. -/
structure Tally (P : Type) where
  accepted : List P
  exact : Bool
  complementable : Bool
  isPartial : Bool

open Tally

namespace PredicatePlan

def intoPredicate : PredicatePlan P → Option P
  | .unsupported => none
  | .partialTree predicate | .conservative predicate
  | .exact predicate | .exactNoComplement predicate => some predicate

end PredicatePlan

namespace Tally

def start : Tally P := ⟨[], true, true, false⟩

/-- One iteration of either loop. -/
def add (tally : Tally P) : PredicatePlan P → Tally P
  | .unsupported => { tally with exact := false, isPartial := true }
  | .partialTree predicate =>
    { tally with
      accepted := tally.accepted ++ [predicate], exact := false, isPartial := true }
  | .conservative predicate =>
    { tally with accepted := tally.accepted ++ [predicate], exact := false }
  | .exact predicate => { tally with accepted := tally.accepted ++ [predicate] }
  | .exactNoComplement predicate =>
    { tally with accepted := tally.accepted ++ [predicate], complementable := false }

def finish (tally : Tally P) (combine : List P → P) : PredicatePlan P :=
  if tally.accepted.isEmpty then .unsupported
  else if tally.isPartial then .partialTree (combine tally.accepted)
  else if tally.exact && tally.complementable then .exact (combine tally.accepted)
  else if tally.exact then .exactNoComplement (combine tally.accepted)
  else .conservative (combine tally.accepted)

end Tally

namespace PredicatePlan

variable (children : List (PredicatePlan P))

def conjunction (combine : List P → P) : PredicatePlan P :=
  (children.foldl add start).finish combine

/-- The loop returns at the first unsupported child. -/
def disjunction (combine : List P → P) : PredicatePlan P :=
  let tally := children.foldlM (fun tally child =>
    match child with
    | .unsupported => none
    | child => some (add tally child)) start
  match tally with
  | none => .unsupported
  | some tally => tally.finish combine

def negate (plan : PredicatePlan P) (negate : P → P) : PredicatePlan P :=
  match plan with
  | .exact predicate => .exact (negate predicate)
  | _ => .unsupported

end PredicatePlan

/-- The trait a provider implements for one specialization. -/
structure PredicatePlanner (S O P E : Type) where
  alwaysTrue : Except E (PredicatePlan P)
  alwaysFalse : Except E (PredicatePlan P)
  strictTrue : S → Except E (PredicatePlan P)
  strictFalse : S → Except E (PredicatePlan P)
  comparison : O → S → S → Except E (PredicatePlan P)
  booleanTest : BooleanTestKind → S → Except E (PredicatePlan P)
  isNull : S → Except E (PredicatePlan P)
  isNotNull : S → Except E (PredicatePlan P)
  isNan : S → Except E (PredicatePlan P)
  isNotNan : S → Except E (PredicatePlan P)
  startsWith : S → S → Except E (PredicatePlan P)
  inSet : O → S → S → Except E (PredicatePlan P)
  conjunction : List P → P
  disjunction : List P → P
  negate : P → P

namespace PredicateExpr

mutual

/-- A negated boolean test is planned as the opposite test. -/
def planWith (planner : PredicatePlanner S O P E) :
    PredicateExpr S O → Except E (PredicatePlan P)
  | .alwaysTrue => planner.alwaysTrue
  | .alwaysFalse => planner.alwaysFalse
  | .strictTrue value => planner.strictTrue value
  | .strictFalse value => planner.strictFalse value
  | .comparison operator left right => planner.comparison operator left right
  | .booleanTest kind value => planner.booleanTest kind value
  | .isNull value => planner.isNull value
  | .isNotNull value => planner.isNotNull value
  | .isNan value => planner.isNan value
  | .isNotNan value => planner.isNotNan value
  | .startsWith value pre => planner.startsWith value pre
  | .inSet operator value set => planner.inSet operator value set
  | .and children => do
    pure (conjunction (← planChildren planner children) planner.conjunction)
  | .or children => do
    pure (disjunction (← planChildren planner children) planner.disjunction)
  | .not (.booleanTest kind value) => planner.booleanTest kind.negated value
  | .not child => do
    pure ((← child.planWith planner).negate planner.negate)

def planChildren (planner : PredicatePlanner S O P E) :
    List (PredicateExpr S O) → Except E (List (PredicatePlan P))
  | [] => pure []
  | child :: rest => do
    let plan ← child.planWith planner
    pure (plan :: (← planChildren planner rest))

end

mutual

/-- The leaves the walk hands to a planner. -/
def plannedLeaves : PredicateExpr S O → List (PredicateExpr S O)
  | .and children => plannedLeavesAll children
  | .or children => plannedLeavesAll children
  | .not (.booleanTest kind value) => [.booleanTest kind.negated value]
  | .not child => child.plannedLeaves
  | leaf => [leaf]

def plannedLeavesAll : List (PredicateExpr S O) → List (PredicateExpr S O)
  | [] => []
  | child :: rest => child.plannedLeaves ++ plannedLeavesAll rest

end

end PredicateExpr

/-! ## Contracts -/

/-- What the filter of a plan promises about a condition. -/
def PredicatePlan.Meets (holds : P → Row → Bool) (negate : P → P) (condition : Row → Truth) :
    PredicatePlan P → Prop
  | .unsupported => True
  | .partialTree predicate | .conservative predicate => Covers (holds predicate) condition
  | .exact predicate => Exactly (holds predicate) condition ∧
      Exactly (holds (negate predicate)) fun row => not (condition row)
  | .exactNoComplement predicate => Exactly (holds predicate) condition

/-- Leaf plans are marked correctly. -/
def LeavesMeet (planner : PredicatePlanner S O P E) (sem : ScalarSemantics S O Row)
    (holds : P → Row → Bool) : Prop :=
  ∀ leaf : PredicateExpr S O, leaf.isLeaf = true →
    ∀ plan, leaf.planWith planner = .ok plan → plan.Meets holds planner.negate (leaf.eval sem)

/-- The provider's connectives mean what they say, and its complement follows
De Morgan's laws. The walk combines non-empty lists only. -/
structure ConnectiveLaws (planner : PredicatePlanner S O P E) (holds : P → Row → Bool) : Prop where
  conjunction : ∀ predicates, predicates ≠ [] → ∀ row,
    holds (planner.conjunction predicates) row = predicates.all (holds · row)
  disjunction : ∀ predicates, predicates ≠ [] → ∀ row,
    holds (planner.disjunction predicates) row = predicates.any (holds · row)
  negateConjunction : ∀ predicates, predicates ≠ [] → ∀ row,
    holds (planner.negate (planner.conjunction predicates)) row =
      predicates.any fun predicate => holds (planner.negate predicate) row
  negateDisjunction : ∀ predicates, predicates ≠ [] → ∀ row,
    holds (planner.negate (planner.disjunction predicates)) row =
      predicates.all fun predicate => holds (planner.negate predicate) row
  negateNegate : ∀ predicate row,
    holds (planner.negate (planner.negate predicate)) row = holds predicate row

/-! ## The tally in closed form -/

namespace PredicatePlan

def isExact : PredicatePlan P → Bool
  | .exact _ | .exactNoComplement _ => true
  | _ => false

def isComplementable : PredicatePlan P → Bool
  | .exactNoComplement _ => false
  | _ => true

def isWidened : PredicatePlan P → Bool
  | .unsupported | .partialTree _ => true
  | _ => false

def isUnsupported : PredicatePlan P → Bool
  | .unsupported => true
  | _ => false

end PredicatePlan

open PredicatePlan

lemma Tally.foldl_add (t : Tally P) (plans : List (PredicatePlan P)) :
    plans.foldl add t = ⟨t.accepted ++ plans.filterMap intoPredicate,
        t.exact && plans.all isExact, t.complementable && plans.all isComplementable,
        t.isPartial || plans.any isWidened⟩ := by
  induction plans generalizing t with
  | nil => simp
  | cons p r ih =>
    rw [List.foldl_cons, ih]
    cases p <;> simp [add, List.filterMap_cons, intoPredicate,
      isExact, isComplementable, isWidened]

def Tally.of (plans : List (PredicatePlan P)) : Tally P :=
  ⟨plans.filterMap intoPredicate, plans.all isExact,
    plans.all isComplementable, plans.any isWidened⟩

variable (plans : List (PredicatePlan P)) (combine : List P → P)

lemma PredicatePlan.conjunction_eq :
    conjunction plans combine = (of plans).finish combine := by
  rw [conjunction, foldl_add]
  simp [start, of]

lemma Tally.foldlM_add (t : Tally P) (plans : List (PredicatePlan P)) :
    plans.foldlM (fun t child =>
      match child with
      | unsupported => none
      | child => some (add t child)) t =
      if plans.any isUnsupported then none
      else some (plans.foldl add t) := by
  induction plans generalizing t with
  | nil => rfl
  | cons p r ih =>
    cases p with
    | unsupported => rfl
    | _ => exact ih _

lemma PredicatePlan.disjunction_eq :
    disjunction plans combine = if plans.any isUnsupported then .unsupported else
      (of plans).finish combine := by
  rw [disjunction, foldlM_add, foldl_add]
  split_ifs
  · rfl
  · simp [start, of]

/-! ## Children against conditions -/

section Children

variable {holds : P → Row → Bool} {negate : P → P}

/-- Plans of children beside the conditions they stand for. -/
abbrev ChildrenMeet (holds : P → Row → Bool) (negate : P → P) (conditions : List (Row → Truth))
    (plans : List (PredicatePlan P)) : Prop :=
  List.Forall₂ (fun condition plan => plan.Meets holds negate condition) conditions plans

variable {cs : List (Row → Truth)} {plans : List (PredicatePlan P)} {c : Row → Truth}

lemma PredicatePlan.Meets.covers {plan : PredicatePlan P} (h : plan.Meets holds negate c) {p : P}
    (hp : plan.intoPredicate = some p) : Covers (holds p) c := by
  cases plan with
  | unsupported => cases hp
  | partialTree | conservative => exact Option.some.inj hp ▸ h
  | exact o => exact Option.some.inj hp ▸ h.1.covers
  | exactNoComplement o => exact Option.some.inj hp ▸ Exactly.covers h

/-- Plans whose filters lose no row of the conditions they stand for. -/
abbrev ChildrenCover (holds : P → Row → Bool) (conditions : List (Row → Truth))
    (plans : List (PredicatePlan P)) : Prop :=
  List.Forall₂ (fun condition plan => ∀ predicate, plan.intoPredicate = some predicate →
    Covers (holds predicate) condition) conditions plans

lemma ChildrenMeet.covers (h : ChildrenMeet holds negate cs plans) : ChildrenCover holds cs plans :=
  h.imp fun _ _ hp _ => hp.covers

lemma accepted_all (h : ChildrenCover holds cs plans) (row : Row)
    (ht : ∀ c ∈ cs, c row = some true) :
    (plans.filterMap intoPredicate).all (holds · row) = true := by
  induction h with
  | nil => rfl
  | @cons c p rc r hpl _ ih =>
    obtain ⟨hc, hr⟩ := List.forall_mem_cons.mp ht
    have ih := ih hr
    cases hp : p.intoPredicate with
    | none => simpa [List.filterMap_cons, hp] using ih
    | some predicate =>
      have hh := hpl predicate hp row hc
      simpa [List.filterMap_cons, hp, hh] using ih

lemma accepted_any (h : ChildrenCover holds cs plans) (row : Row)
    (hco : plans.any isUnsupported = false) (ht : ∃ c ∈ cs, c row = some true) :
    (plans.filterMap intoPredicate).any (holds · row) = true := by
  induction h with
  | nil => simp at ht
  | @cons c plan rc r hpl _ ih =>
    obtain ⟨hh, hr⟩ := Bool.or_eq_false_iff.mp hco
    have hp : ∃ p, plan.intoPredicate = some p := by
      cases plan with
      | unsupported => cases hh
      | _ => exact ⟨_, rfl⟩
    obtain ⟨p, hp⟩ := hp
    rw [List.filterMap_cons_some hp, List.any_cons, Bool.or_eq_true]
    rcases (List.exists_mem_cons_iff ..).mp ht with hc | hta
    · exact .inl (hpl p hp row hc)
    · exact .inr (ih hr hta)

section

variable (h : ChildrenMeet holds negate cs plans) (he : plans.all isExact = true)

include h he

lemma exact_accepted :
    List.Forall₂ (fun c p => Exactly (holds p) c) cs (plans.filterMap intoPredicate) := by
  induction h with
  | nil => exact .nil
  | @cons c plan rc r hp _ ih =>
    obtain ⟨hh, hr⟩ := Bool.and_eq_true_iff.mp he
    cases plan with
    | exact p => exact .cons hp.1 (ih hr)
    | exactNoComplement p => exact .cons hp (ih hr)
    | _ => cases hh

lemma complement_accepted (hc : plans.all isComplementable = true) :
    List.Forall₂ (fun c p => Exactly (holds (negate p)) fun row => Truth.not (c row)) cs
      (plans.filterMap intoPredicate) := by
  induction h with
  | nil => exact .nil
  | @cons c plan rc r hp _ ih =>
    obtain ⟨hh, hr⟩ := Bool.and_eq_true_iff.mp he
    obtain ⟨hh', hr'⟩ := Bool.and_eq_true_iff.mp hc
    cases plan with
    | exact p => exact .cons hp.2 (ih hr hr')
    | exactNoComplement p => cases hh'
    | _ => cases hh

end

variable {ps : List P}

section

variable {fs : P → Row → Bool}
  (h : List.Forall₂ (fun condition predicate => Exactly (fs predicate) condition) cs ps) (row : Row)

include h

lemma all_exactly : ps.all (fs · row) = true ↔ ∀ c ∈ cs, c row = some true := by
  induction h with
  | nil => simp
  | @cons c predicate _ _ hh _ ih =>
    rw [List.all_cons, Bool.and_eq_true, hh row, ih, List.forall_mem_cons]

lemma any_exactly : ps.any (fs · row) = true ↔ ∃ c ∈ cs, c row = some true := by
  induction h with
  | nil => simp
  | @cons c predicate _ _ hh _ ih =>
    rw [List.any_cons, Bool.or_eq_true, hh row, ih, List.exists_mem_cons_iff]

end

section

variable (h : List.Forall₂ (fun condition predicate => Exactly (holds (negate predicate)) fun row =>
    Truth.not (condition row)) cs ps) (row : Row)

include h

lemma all_complement :
    (ps.all fun p => holds (negate p) row) = true ↔ ∀ c ∈ cs, c row = some false := by
  have hm := all_exactly (List.forall₂_map_left_iff.mpr h) row
  simpa using hm

lemma any_complement :
    (ps.any fun p => holds (negate p) row) = true ↔ ∃ c ∈ cs, c row = some false := by
  have hm := any_exactly (List.forall₂_map_left_iff.mpr h) row
  simpa using hm

end

lemma Tally.finish_meets (combine : List P → P)
    (hco : (of plans).accepted ≠ [] → Covers (holds (combine (of plans).accepted)) c)
    (hex : (of plans).accepted ≠ [] → plans.all isExact = true →
      Exactly (holds (combine (of plans).accepted)) c)
    (hc : (of plans).accepted ≠ [] → plans.all isExact = true →
      plans.all isComplementable = true →
      Exactly (holds (negate (combine (of plans).accepted))) fun row => not (c row)) :
    ((of plans).finish combine).Meets holds negate c := by
  unfold finish
  split_ifs with he hp hb ho
  · trivial
  · exact hco (by simpa using he)
  · obtain ⟨ha, hcom⟩ := Bool.and_eq_true_iff.mp hb
    have hne := by simpa using he
    exact ⟨hex hne ha, hc hne ha hcom⟩
  · exact hex (by simpa using he) ho
  · exact hco (by simpa using he)

end Children

/-! ## The walk -/

section Walk

variable {planner p : PredicatePlanner S O P E} {sem : ScalarSemantics S O Row}
  {holds : P → Row → Bool} {cs : List (Row → Truth)} {plans : List (PredicatePlan P)}

section

variable (laws : ConnectiveLaws p holds) (h : ChildrenMeet holds p.negate cs plans)

include laws h

lemma conjunction_meets :
    (conjunction plans p.conjunction).Meets holds p.negate fun row => all (cs.map (· row)) := by
  rw [conjunction_eq]
  have ht : ∀ row, all (cs.map (· row)) = some true ↔ ∀ c ∈ cs, c row = some true := by
    intro row
    rw [all_eq_true, List.forall_mem_map]
  have hf : ∀ row, all (cs.map (· row)) = some false ↔ ∃ c ∈ cs, c row = some false := by
    intro row
    rw [all_eq_false]
    simp
  refine finish_meets p.conjunction ?_ ?_ ?_
  · intro hne row hr
    rw [laws.conjunction _ hne]
    exact accepted_all h.covers row ((ht row).mp hr)
  · intro hne he row
    rw [laws.conjunction _ hne, ht row]
    exact all_exactly (exact_accepted h he) row
  · intro hne he hc row
    rw [laws.negateConjunction _ hne, not_eq_true, hf row]
    exact any_complement (complement_accepted h he hc) row

lemma disjunction_meets :
    (disjunction plans p.disjunction).Meets holds p.negate fun row => any (cs.map (· row)) := by
  rw [disjunction_eq]
  split_ifs with hc
  · trivial
  have hc := Bool.eq_false_iff.mpr hc
  have ht : ∀ row, any (cs.map (· row)) = some true ↔ ∃ c ∈ cs, c row = some true := by
    intro row
    rw [any_eq_true]
    simp
  have hf : ∀ row, any (cs.map (· row)) = some false ↔ ∀ c ∈ cs, c row = some false := by
    intro row
    rw [any_eq_false, List.forall_mem_map]
  refine finish_meets p.disjunction ?_ ?_ ?_
  · intro hne row hr
    rw [laws.disjunction _ hne]
    exact accepted_any h.covers row hc ((ht row).mp hr)
  · intro hne he row
    rw [laws.disjunction _ hne, ht row]
    exact any_exactly (exact_accepted h he) row
  · intro hne he hco row
    rw [laws.negateDisjunction _ hne, not_eq_true, hf row]
    exact all_complement (complement_accepted h he hco) row

end

lemma negate_meets (laws : ConnectiveLaws p holds) {c : Row → Truth}
    {plan : PredicatePlan P} (h : plan.Meets holds p.negate c) :
    (plan.negate p.negate).Meets holds p.negate fun row => not (c row) := by
  cases plan with
  | exact predicate =>
    refine ⟨h.2, fun row => ?_⟩
    rw [laws.negateNegate, not_eq_true, not_eq_false]
    exact h.1 row
  | _ => trivial

open PredicateExpr

lemma evalAll_eq (cs : List (PredicateExpr S O)) (row : Row) :
    evalAll sem cs row = (cs.map fun child => child.eval sem).map (· row) := by
  induction cs with
  | nil => rfl
  | cons child r ih => rw [evalAll, ih]; rfl

variable {child : PredicateExpr S O}

lemma planWith_not (h : ∀ k v, child ≠ .booleanTest k v) :
    (not child).planWith p = (do pure ((← child.planWith p).negate p.negate)) := by
  cases child with
  | booleanTest k v => exact absurd rfl (h k v)
  | _ => rfl

lemma plannedLeaves_not (h : ∀ k v, child ≠ .booleanTest k v) :
    (not child).plannedLeaves = child.plannedLeaves := by
  cases child with
  | booleanTest k v => exact absurd rfl (h k v)
  | _ => rfl

/-- A relation between trees and their plans that every combination keeps. -/
structure WalkRules (planner : PredicatePlanner S O P E)
    (motive : PredicateExpr S O → PredicatePlan P → Prop) : Prop where
  conjunction : ∀ children plans, List.Forall₂ motive children plans →
    motive (.and children) (.conjunction plans planner.conjunction)
  disjunction : ∀ children plans, List.Forall₂ motive children plans →
    motive (.or children) (.disjunction plans planner.disjunction)
  negation : ∀ child plan, motive child plan → motive (.not child) (plan.negate planner.negate)
  opposite : ∀ kind value plan, motive (.booleanTest kind.negated value) plan →
    motive (.not (.booleanTest kind value)) plan

section Induction

variable {motive : PredicateExpr S O → PredicatePlan P → Prop}

mutual

/-- What holds of the planned leaves holds of the planned tree. -/
lemma planWith_induction (rs : WalkRules p motive) : ∀ (e : PredicateExpr S O),
    (∀ l ∈ e.plannedLeaves, ∀ plan, l.planWith p = .ok plan → motive l plan) →
      ∀ plan, e.planWith p = .ok plan → motive e plan
  | .and children, leaves, plan, h => by
    obtain ⟨plans, hpl, hp⟩ := bind_eq_ok h
    cases hp
    exact rs.conjunction children plans (planChildren_induction rs children leaves plans hpl)
  | .or children, leaves, plan, h => by
    obtain ⟨plans, hpl, hp⟩ := bind_eq_ok h
    cases hp
    exact rs.disjunction children plans (planChildren_induction rs children leaves plans hpl)
  | .not c, leaves, plan, h => by
    have ih := planWith_induction rs c
    by_cases ht : ∃ k v, c = .booleanTest k v
    · obtain ⟨k, v, rfl⟩ := ht
      exact rs.opposite k v plan (leaves _ (List.mem_singleton_self _) plan h)
    · have hnot : ∀ k v, c ≠ .booleanTest k v := fun k v hs => ht ⟨k, v, hs⟩
      rw [planWith_not hnot] at h
      rw [plannedLeaves_not hnot] at leaves
      obtain ⟨cp, hc, hp⟩ := bind_eq_ok h
      cases hp
      exact rs.negation c cp (ih leaves cp hc)
  | .alwaysTrue, leaves, plan, h | .alwaysFalse, leaves, plan, h
  | .strictTrue .., leaves, plan, h | .strictFalse .., leaves, plan, h
  | .comparison .., leaves, plan, h | .booleanTest .., leaves, plan, h
  | .isNull .., leaves, plan, h | .isNotNull .., leaves, plan, h | .isNan .., leaves, plan, h
  | .isNotNan .., leaves, plan, h | .startsWith .., leaves, plan, h
  | .inSet .., leaves, plan, h => leaves _ (List.mem_singleton_self _) plan h

lemma planChildren_induction (rs : WalkRules p motive) :
    ∀ (children : List (PredicateExpr S O)),
    (∀ l ∈ plannedLeavesAll children, ∀ plan, l.planWith p = .ok plan → motive l plan) →
      ∀ plans, planChildren p children = .ok plans → List.Forall₂ motive children plans
  | [], _, plans, h => by
    cases h
    exact .nil
  | child :: rest, leaves, plans, h => by
    obtain ⟨plan, hpl, ht⟩ := bind_eq_ok h
    obtain ⟨r, hr, hp⟩ := bind_eq_ok ht
    cases hp
    refine .cons ?_ ?_
    · exact planWith_induction rs child (fun l hl => leaves l (List.mem_append_left _ hl)) plan hpl
    · exact planChildren_induction rs rest (fun l hl => leaves l (List.mem_append_right _ hl)) r hr

end

end Induction

/-- A planner's marks are right on the leaves it is handed, so they are right on
the tree. -/
lemma planWith_meets (laws : ConnectiveLaws p holds) (e : PredicateExpr S O)
    (ls : ∀ leaf ∈ e.plannedLeaves, ∀ plan, leaf.planWith p = .ok plan →
      plan.Meets holds p.negate (leaf.eval sem)) (plan : PredicatePlan P)
    (h : e.planWith p = .ok plan) : plan.Meets holds p.negate (e.eval sem) := by
  refine planWith_induction ⟨?_, ?_, ?_, ?_⟩ e ls plan h
  · intro c plans hc
    have hm := conjunction_meets laws (List.forall₂_map_left_iff.mpr hc)
    simpa only [eval, evalAll_eq] using hm
  · intro c plans hc
    have hm := disjunction_meets laws (List.forall₂_map_left_iff.mpr hc)
    simpa only [eval, evalAll_eq] using hm
  · intro ch cp hch
    exact negate_meets laws hch
  · intro k v cp hch
    simpa only [eval, BooleanTestKind.test_negated, Truth.not, Option.map_some]
      using hch

mutual

lemma plannedLeaves_isLeaf : ∀ (e : PredicateExpr S O), ∀ l ∈ e.plannedLeaves, l.isLeaf = true
  | .and children, l, h | .or children, l, h => plannedLeavesAll_isLeaf children l h
  | .not child, l, h => by
    have ih := plannedLeaves_isLeaf child
    by_cases ht : ∃ k v, child = .booleanTest k v
    · obtain ⟨k, v, rfl⟩ := ht
      rw [List.mem_singleton.mp h]
      rfl
    · rw [plannedLeaves_not fun k v hs => ht ⟨k, v, hs⟩] at h
      exact ih l h
  | .alwaysTrue, _, h | .alwaysFalse, _, h | .strictTrue .., _, h | .strictFalse .., _, h
  | .comparison .., _, h | .booleanTest .., _, h | .isNull .., _, h | .isNotNull .., _, h
  | .isNan .., _, h | .isNotNan .., _, h | .startsWith .., _, h | .inSet .., _, h =>
    List.mem_singleton.mp h ▸ rfl

lemma plannedLeavesAll_isLeaf : ∀ (children : List (PredicateExpr S O)),
    ∀ l ∈ plannedLeavesAll children, l.isLeaf = true
  | [], _, h => nomatch h
  | child :: rest, l, h => by
    rcases List.mem_append.mp h with hc | hr
    · exact plannedLeaves_isLeaf child l hc
    · exact plannedLeavesAll_isLeaf rest l hr

end

section Refinement

variable {f g : O → S → S → Row → Truth} {row : Row}

mutual

/-- A tree decides no less when its comparisons do. -/
lemma eval_refines (h : ∀ o l r, Truth.Refines (f o l r row) (g o l r row)) :
    ∀ e : PredicateExpr S O,
      Truth.Refines (e.eval { sem with compare := f } row) (e.eval { sem with compare := g } row)
  | .and children => .all (evalAll_refines h children)
  | .or children => .any (evalAll_refines h children)
  | .not child => (eval_refines h child).not
  | .comparison o left right => h o left right
  | .alwaysTrue | .alwaysFalse | .strictTrue .. | .strictFalse .. | .booleanTest .. | .isNull ..
  | .isNotNull .. | .isNan .. | .isNotNan .. | .startsWith .. | .inSet .. => fun _ hv => hv

lemma evalAll_refines (h : ∀ o l r, Truth.Refines (f o l r row) (g o l r row)) :
    ∀ children : List (PredicateExpr S O),
      List.Forall₂ Truth.Refines (evalAll { sem with compare := f } children row)
        (evalAll { sem with compare := g } children row)
  | [] => .nil
  | child :: rest => .cons (eval_refines h child) (evalAll_refines h rest)

end

end Refinement

/-- What the plan of a tree promises, spelled out by its mark. -/
structure PlanSound (planner : PredicatePlanner S O P E) (sem : ScalarSemantics S O Row)
    (holds : P → Row → Bool) (e : PredicateExpr S O) (plan : PredicatePlan P) : Prop where
  exact : ∀ predicate, plan = .exact predicate ∨ plan = .exactNoComplement predicate →
    ∀ row, holds predicate row = true ↔ e.eval sem row = some true
  covers : ∀ predicate, plan = .conservative predicate ∨ plan = .partialTree predicate →
    ∀ row, e.eval sem row = some true → holds predicate row = true
  complement : ∀ predicate, plan = .exact predicate →
    plan.negate planner.negate = .exact (planner.negate predicate) ∧
      ∀ row, holds (planner.negate predicate) row = true ↔
        (not e).eval sem row = some true
  /-- The walk plans a negation by that complement, boolean tests apart. -/
  negation : ∀ predicate, plan = .exact predicate →
    (∃ kind value, e = .booleanTest kind value ∧
      (not e).planWith planner =
        (booleanTest kind.negated value).planWith planner) ∨
      (not e).planWith planner = .ok (.exact (planner.negate predicate))

/-- The plan algebra is sound under three-valued logic. -/
theorem planWith_sound (leaves : LeavesMeet planner sem holds)
    (laws : ConnectiveLaws planner holds) (e : PredicateExpr S O) (plan : PredicatePlan P)
    (h : e.planWith planner = .ok plan) : PlanSound planner sem holds e plan := by
  have hm := planWith_meets laws e
    (fun leaf hl => leaves leaf (plannedLeaves_isLeaf e leaf hl)) plan h
  refine ⟨?_, ?_, ?_, ?_⟩
  · rintro predicate (rfl | rfl)
    · exact hm.1
    · exact hm
  · rintro predicate (rfl | rfl)
    · exact hm
    · exact hm
  · rintro predicate rfl
    exact ⟨rfl, hm.2⟩
  · rintro predicate rfl
    by_cases ht : ∃ kind v, e = .booleanTest kind v
    · obtain ⟨kind, v, rfl⟩ := ht
      exact .inl ⟨kind, v, rfl, rfl⟩
    · rw [planWith_not fun kind v hs => ht ⟨kind, v, hs⟩]
      exact .inr (bind_ok h)

end Walk

/-- One nullable integer column, literals, and `<` or `=`. -/
def columnSemantics : ScalarSemantics (Option (Option ℤ)) Bool (Option ℤ) where
  isNull scalar row := (scalar.getD row).isNone
  boolean _ _ := none
  compare strict left right row := do
    let a ← left.getD row
    let b ← right.getD row
    pure (if strict then decide (a < b) else decide (a = b))
  isNan _ _ := none
  startsWith _ _ _ := none
  inSet _ _ _ _ := none

/-- A provider whose predicates are three-valued functions of the row. Sets are
accepted without being evaluated. -/
def columnPlanner :
    PredicatePlanner (Option (Option ℤ)) Bool (Option ℤ → Truth) Unit where
  alwaysTrue := .ok (.exact fun _ => some true)
  alwaysFalse := .ok (.exact fun _ => some false)
  strictTrue _ := .ok .unsupported
  strictFalse _ := .ok .unsupported
  comparison strict left right := .ok (.exact (columnSemantics.compare strict left right))
  booleanTest _ _ := .ok .unsupported
  isNull value := .ok (.exact fun row => some (columnSemantics.isNull value row))
  isNotNull value := .ok (.exact fun row => some (!columnSemantics.isNull value row))
  isNan _ := .ok .unsupported
  isNotNan _ := .ok .unsupported
  startsWith _ _ := .ok .unsupported
  inSet _ _ _ := .ok (.conservative fun _ => some true)
  conjunction predicates row := all (predicates.map (· row))
  disjunction predicates row := any (predicates.map (· row))
  negate predicate row := not (predicate row)

def columnHolds (predicate : Option ℤ → Truth) (row : Option ℤ) : Bool := predicate row == some true

attribute [local simp] columnHolds columnPlanner

lemma columnPlanner_laws : ConnectiveLaws columnPlanner columnHolds where
  conjunction := by
    intro ps _ row
    rw [Bool.eq_iff_iff]
    simp [all_eq_true]
  disjunction := by
    intro ps _ row
    rw [Bool.eq_iff_iff]
    simp [any_eq_true]
  negateConjunction := by
    intro ps _ row
    rw [Bool.eq_iff_iff]
    simp [all_eq_false]
  negateDisjunction := by
    intro ps _ row
    rw [Bool.eq_iff_iff]
    simp [any_eq_false]
  negateNegate := by
    simp

lemma columnPlanner_exact (c : Option ℤ → Truth) :
    (exact c).Meets columnHolds columnPlanner.negate c := by
  constructor
  · intro row
    simp
  · intro row
    simp

lemma columnPlanner_leaves : LeavesMeet columnPlanner columnSemantics columnHolds := by
  intro l hl p hp
  cases l with
  | and | or | not => cases hl
  | inSet o v set =>
    cases hp
    intro row _
    rfl
  | alwaysTrue | alwaysFalse | comparison | isNull => exact Except.ok.inj hp ▸ columnPlanner_exact _
  | isNotNull v => exact Except.ok.inj hp ▸ columnPlanner_exact _
  | _ =>
    cases hp
    trivial

/-- `NOT (column < 5 OR column IS NULL)` is complemented natively; beside an
unsupported leaf it becomes a widened tree. -/
theorem columnPlanner_sound :
    (∃ predicate, PlanSound columnPlanner columnSemantics columnHolds
        (.not (.or [.comparison true none (some (some 5)), .isNull none])) (.exact predicate)) ∧
      ∃ predicate, PlanSound columnPlanner columnSemantics columnHolds
        (.and [.not (.comparison true none (some (some 5))), .isNan none])
        (.partialTree predicate) :=
  ⟨⟨_, planWith_sound columnPlanner_leaves columnPlanner_laws _ _ rfl⟩,
    ⟨_, planWith_sound columnPlanner_leaves columnPlanner_laws _ _ rfl⟩⟩

end LagoDB.Pushdown
