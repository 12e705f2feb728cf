import LagoDB.JoinContract
import Mathlib.Data.Multiset.OrderedMonoid

/-!
# Rebuilt joins yield PostgreSQL's rows

A join rebuilt from a path yields the rows of the path when it recovers every
clause moved into the inner input and no input is made unique.
-/
namespace LagoDB.RelationTree

open SqlLogic Iceberg Negotiation JoinAlgebra List RelationTreePlanner QueryContext JoinKey

variable {σ : Type} {p : RelationTreePlanner σ}

/-! ## Rows of one scope -/

def toScan (root : ℕ) (row : Row ℤ) : Row ScanId :=
  fun scan => if scan.root = root then row scan.rti else fun _ => none

attribute [local simp] toScan

variable (root : ℕ)

lemma scopeRow_toScan (row : Row ℤ) : scopeRow root (toScan root row) = row := by
  ext r : 1
  simp [scopeRow]

lemma toScan_merge (left right : Row ℤ) :
    toScan root (.merge left right) = .merge (toScan root left) (toScan root right) := by
  ext scan attno : 2
  by_cases hr : scan.root = root
  · simp [Row.merge, hr]
  · simp [Row.merge, hr]

lemma toScan_joined (p : Option (Row ℤ) × Option (Row ℤ)) :
    Row.joined (translate (toScan root) (toScan root) p) = toScan root (Row.joined p) := by
  have hn : toScan root Row.null = Row.null := by
    ext scan attno : 2
    by_cases hr : scan.root = root
    · simp [Row.null, hr]
    · simp [Row.null, hr]
  have hh (half : Option (Row ℤ)) :
      (half.map (toScan root)).getD .null = toScan root (half.getD .null) := by
    cases half with
    | none => exact hn.symm
    | some row => rfl
  rw [Row.joined, Row.joined, toScan_merge]
  simp only [JoinAlgebra.translate, Prod.map_fst, Prod.map_snd, hh]

lemma toScan_relationRow (r : ℤ) (t : ℤ → PgValue) :
    toScan root (relationRow r t) = scanRow ⟨root, r⟩ t := by
  ext scan : 1
  by_cases hr : scan.root = root
  · by_cases hrt : scan.rti = r
    · have hs : scan = ⟨root, r⟩ := by rw [← hr, ← hrt]
      simp [relationRow, scanRow, hs]
    · have hs : scan ≠ ⟨root, r⟩ := fun heq => hrt (by rw [heq])
      simp [relationRow, scanRow, hr, hrt, hs]
  · have hs : scan ≠ ⟨root, r⟩ := fun heq => hr (by rw [heq])
    simp [scanRow, hr, hs]

lemma execTruth_toScan (c : QueryContext) (root : ℕ) (row : Row ℤ) (l : PgExpr) :
    c.execTruth (toScan root row) ⟨root, l⟩ = c.clauseTruth root row l := by
  rw [execTruth, scopeRow_toScan]

variable {key : JoinKey}

lemma keyTruth_toScan (c : QueryContext) {root : ℕ} (row : Row ℤ)
    (hl : key.left.scan.root = root) (hr : key.right.scan.root = root) :
    c.keyTruth (toScan root row) key =
      (c.backend.operator key.operator [key.left.value row, key.right.value row]).truth := by
  simp [keyTruth, ScanColumn.value, hl, hr]

lemma merge_comm_of_disjoint {left right : Output} (h : Disjoint left.visible right.visible)
    {l r : Row ℤ} (hl : l ∈ left.rows) (hr : r ∈ right.rows) : Row.merge l r = Row.merge r l := by
  ext t attno : 2
  rw [Row.merge, Row.merge]
  by_cases hv : t ∈ left.visible
  · rw [right.supported r hr t (Finset.disjoint_left.mp h hv), Option.or_none, Option.none_or]
  · rw [left.supported l hl t hv, Option.or_none, Option.none_or]

/-! ## Oriented keys -/

lemma inspectJoinColumn_root {root : ℕ} {e : PgExpr} {c : ScanColumn}
    (h : p.inspectJoinColumn root e = some c) : c.scan.root = root := by
  rw [inspectJoinColumn] at h
  split at h
  · split_ifs at h
    rw [← Option.some.inj h]
  · cases h

lemma tryNew_eq_some {fs : TypeFacts} {left right : ScanColumn} {op : PgComparisonOp}
    (h : tryNew fs left right op = some key) :
    key = ⟨left, right, op⟩ ∧ validateSemantics fs key = true := by
  rw [tryNew] at h
  split_ifs at h with hvalid
  cases h
  exact ⟨rfl, hvalid⟩

lemma lowerRestrictinfoJoinKey_spec {t : JoinRestriction}
    (h : p.lowerRestrictinfoJoinKey t = some key) :
    key.left.scan.root = p.root ∧ key.right.scan.root = p.root ∧
      validateSemantics p.facts key = true := by
  rw [lowerRestrictinfoJoinKey] at h
  split at h
  · split_ifs at h
    rw [lowerJoinKey.eq_def] at h
    split at h
    · obtain ⟨left, hl, h⟩ := Option.bind_eq_some_iff.mp h
      obtain ⟨right, hr, h⟩ := Option.bind_eq_some_iff.mp h
      split_ifs at h
      obtain ⟨rfl, hv⟩ := tryNew_eq_some h
      exact ⟨inspectJoinColumn_root hl, inspectJoinColumn_root hr, hv⟩
    · cases h
  · cases h

section Orient

variable {left right : RelationNode} {c : ScanColumn}

lemma memberColumn_root {root : ℕ} {m : PgExpr}
    (h : memberColumn root m = some c) : c.scan.root = root := by
  rw [memberColumn] at h
  split at h
  · split_ifs at h
    rw [← Option.some.inj h]
  · cases h

lemma outputEquivalents_spec {pruned : ScanColumn} (h : c ∈ p.outputEquivalents left right pruned) :
    Interchangeable (p.eqClasses pruned.scan.root) pruned c ∧ c.scan.root = pruned.scan.root := by
  rw [outputEquivalents] at h
  split at h
  next m hf =>
    rw [replacements, mem_eraseDups, mem_filter, mem_filterMap] at h
    obtain ⟨⟨me, hm, hco⟩, -⟩ := h
    have hc := List.find?_some hf
    rw [containsPruned, any_eq_true] at hc
    obtain ⟨o, ho, hs⟩ := hc
    refine ⟨.inr ⟨m, mem_of_find?_eq_some hf, ⟨o, ho, ?_⟩, me, hm, hco⟩, memberColumn_root hco⟩
    split at hs
    next own how =>
      rw [Bool.and_eq_true, decide_eq_true_iff, decide_eq_true_iff] at hs
      exact ⟨own, how, hs⟩
    next => cases hs
  next => cases h

lemma endpoints_spec {o : ScanColumn} (h : o ∈ p.endpoints left right c) :
    Interchangeable (p.eqClasses c.scan.root) c o ∧ o.scan.root = c.scan.root := by
  rw [endpoints] at h
  split_ifs at h
  · obtain rfl := mem_singleton.mp h
    exact ⟨.inl rfl, rfl⟩
  · exact outputEquivalents_spec h

/-- A key across two trees, as it is or turned around. -/
structure Crosses (left right : RelationNode) (key oriented : JoinKey) : Prop where
  left : left.emits oriented.left.scan = true
  right : right.emits oriented.right.scan = true
  same : oriented = key ∨ oriented = ⟨key.right, key.left, key.operator⟩

variable {key o : JoinKey}

lemma orientVisibleKey_spec (h : p.orientVisibleKey left right key = some o) :
    Crosses left right key o := by
  rw [orientVisibleKey] at h
  split_ifs at h with hs ht
  · cases h
    obtain ⟨hl, hr⟩ := Bool.and_eq_true_iff.mp hs
    exact ⟨hl, hr, .inl rfl⟩
  · obtain ⟨rfl, -⟩ := tryNew_eq_some h
    obtain ⟨hl, hr⟩ := Bool.and_eq_true_iff.mp ht
    exact ⟨hl, hr, .inr rfl⟩

section

variable (hva : JoinKey.validateSemantics p.facts key = true)
  (h : o ∈ p.orientedKeys left right key)

include hva h

lemma orientedKeys_endpoints :
    ∃ f ∈ p.endpoints left right key.left, ∃ s ∈ p.endpoints left right key.right,
        validateSemantics p.facts ⟨f, s, key.operator⟩ = true ∧
          Crosses left right ⟨f, s, key.operator⟩ o := by
  rw [orientedKeys] at h
  split at h
  next v hv =>
    obtain rfl := mem_singleton.mp h
    have hc := orientVisibleKey_spec hv
    have hse : isOutputVisible left right key.left = true ∧
        isOutputVisible left right key.right = true := by
      rcases hc.same with rfl | rfl
      · simp [isOutputVisible, hc.left, hc.right]
      · have hl : left.emits key.right.scan = true := hc.left
        have hri : right.emits key.left.scan = true := hc.right
        simp [isOutputVisible, hl, hri]
    refine ⟨key.left, ?_, key.right, ?_, hva, hc⟩
    · simp [endpoints, hse.1]
    · simp [endpoints, hse.2]
  next =>
    split_ifs at h
    · cases h
    · obtain ⟨f, hf, h⟩ := mem_flatMap.mp h
      obtain ⟨s, hs, h⟩ := mem_filterMap.mp h
      obtain ⟨r, hr, h⟩ := Option.bind_eq_some_iff.mp h
      obtain ⟨rfl, hva⟩ := tryNew_eq_some hr
      exact ⟨f, hf, s, hs, hva, orientVisibleKey_spec h⟩

lemma orientedKeys_spec :
    ∃ f s, Interchangeable (p.eqClasses key.left.scan.root) key.left f ∧
      Interchangeable (p.eqClasses key.right.scan.root) key.right s ∧
      f.scan.root = key.left.scan.root ∧ s.scan.root = key.right.scan.root ∧
      validateSemantics p.facts ⟨f, s, key.operator⟩ = true ∧
      Crosses left right ⟨f, s, key.operator⟩ o := by
  obtain ⟨f, hf, s, hs, hva, hc⟩ := orientedKeys_endpoints hva h
  obtain ⟨hl, hlr⟩ := endpoints_spec hf
  obtain ⟨hr, hrr⟩ := endpoints_spec hs
  exact ⟨f, s, hl, hr, hlr, hrr, hva, hc⟩

end

end Orient

/-! ## The clauses of a planned join -/

/-- PostgreSQL's hashable equality operators are symmetric. -/
def SymmetricKeys (facts : TypeFacts) (backend : Backend) : Prop :=
  ∀ key, JoinKey.validateSemantics facts key = true → ∀ a b,
    (backend.operator key.operator [a, b]).truth = (backend.operator key.operator [b, a]).truth

lemma restrictionPlacement_postJoin_iff (j : PgJoinType) (p : Bool) :
    restrictionPlacement (normalizedType j).1 p = .postJoin ↔ (j.isOuterJoin && p) = true := by
  cases j <;> cases p <;> decide

section PlannedLevel

variable {s : JoinRestrictionScope} {j : PgJoinType} (ht : s.joinType = (normalizedType j).1)

include ht

lemma placement_postJoin_iff (t : JoinRestriction) :
    placement s t = .postJoin ↔ isOtherQual s.relids j t = true := by
  rw [placement, ht, restrictionPlacement_postJoin_iff, isOtherQual]

lemma plays_isMatch {t : JoinRestriction} {r : JoinRole} (h : p.Plays s t r) :
    r.isMatch = !isOtherQual s.relids j t := by
  have hp := placement_postJoin_iff ht t
  have hom (hpl : placement s t = .onMatch) : isOtherQual s.relids j t = false := by
    rw [← Bool.not_eq_true, ← hp, hpl]
    decide
  cases r with
  | key o => rw [hom h.1]; rfl
  | onFilter => rw [hom h]; rfl
  | postFilter => rw [hp.mp h]; rfl

end PlannedLevel

/-! ## One join -/

/-- The condition of a planned join on a row of both inputs. -/
def matchQuals (sem : PgSemantics) (relids : Finset ℤ) (jointype : PgJoinType)
    (restrictions moved : List JoinRestriction) (row : Row ℤ) : Bool :=
  allTrue sem.truth moved row && allTrue sem.truth (joinQuals relids jointype restrictions) row

/-- A planned join with its inputs in the order the tree has them. -/
structure LogicalJoin (planner : RelationTreePlanner σ) (sem : PgSemantics) (relids : Finset ℤ)
    (jointype : PgJoinType) (restrictions parameterized moved : List JoinRestriction)
    (left right : Output) (joined : Multiset (Row ℤ)) (emitted : Finset ℤ) : Prop where
  rows : ∀ kind, (normalizedType jointype).1.toKind = some kind →
    joined = ((joinRows kind (fun l r =>
      matchQuals sem relids jointype restrictions moved (.merge l r)) left.rows right.rows).map
        Row.joined).filter fun row =>
          allTrue sem.truth (otherQuals relids jointype restrictions) row = true
  visible : ∀ rti, rti ∈ emitted ↔ rti ∈ left.visible ∨
    (normalizedType jointype).1.emitsRight = true ∧ rti ∈ right.visible
  parameterized : ∀ restriction ∈ parameterized, restriction ∈ moved
  movedBelow : ∀ restriction ∈ moved, isOtherQual relids jointype restriction = false
  serials : ∀ restriction ∈ restrictions ++ moved, ∀ other ∈ restrictions ++ moved,
    restriction.rinfoSerial = other.rinfoSerial →
      restriction.pushedDown relids = other.pushedDown relids ∧
        ∀ row, sem.truth restriction row = sem.truth other row
  evaluates : ∀ restriction ∈ restrictions ++ moved,
    (∀ column ∈ columnsOf restriction.clause, planner.isLocal planner.root column.1 = true →
      column.1 ∈ left.visible ∪ right.visible) →
    ∀ row, sem.truth restriction row =
      sem.context.clauseTruth planner.root row restriction.clause
  equivalent : ∀ restriction ∈ restrictions ++ moved, ∀ key,
    planner.lowerRestrictinfoJoinKey restriction = some key → ∀ first second,
      Interchangeable (planner.eqClasses planner.root) key.left first →
      Interchangeable (planner.eqClasses planner.root) key.right second →
      JoinKey.validateSemantics planner.facts ⟨first, second, key.operator⟩ = true →
      first.scan.rti ∈ left.visible ∧ second.scan.rti ∈ right.visible ∨
        first.scan.rti ∈ right.visible ∧ second.scan.rti ∈ left.visible →
      ∀ l ∈ left.rows, ∀ r ∈ right.rows, sem.truth restriction (.merge l r) =
        (sem.context.backend.operator key.operator
          [first.value (.merge l r), second.value (.merge l r)]).truth

section OneJoin

variable {sem : PgSemantics} {rs : Finset ℤ} {out : Output} {tag : JoinPathTag} {j : PgJoinType}
  {ss : List JoinRestriction} {outer i : InputPath}

/-- The rows of a path if no input were made unique. -/
def wholeRows (sem : PgSemantics) (relids : Finset ℤ) (jointype : PgJoinType)
    (restrictions : List JoinRestriction) (outer inner : InputPath) : Multiset (Row ℤ) :=
  pathRows sem.truth relids jointype restrictions inner.moved (sem.output outer.parent).rows
    (sem.output inner.parent).rows

lemma PlannedJoin.moved_of_ne (h : PlannedJoin p sem rs out tag j ss outer i)
    (hne : j ≠ .inner ∧ j ≠ .left ∧ j ≠ .semi ∧ j ≠ .anti) : i.moved = [] := by
  by_contra hm
  obtain ⟨-, hn⟩ := h.innerMoved hm
  tauto

lemma pathPairs_of_ordered (t : JoinRestriction → Row ℤ → Truth) {kind : JoinKind}
    (hs : (normalizedType j).2 = false) (hk : (normalizedType j).1.toKind = some kind)
    (on : Row ℤ → Bool) {moved : List JoinRestriction}
    (hm : kind.isNested = false → moved = []) (left right : Multiset (Row ℤ)) :
    pathPairs t j on moved left right =
      joinRows kind (fun l r => allTrue t moved (.merge l r) && on (.merge l r)) left right := by
  have hn (hn : kind.isNested = true) := nestedRows_filter hn (fun l r => on (.merge l r))
      (fun l r => allTrue t moved (.merge l r)) left right
  cases j with
  | inner | left | semi | anti =>
    cases hk
    exact hn rfl
  | right | full =>
    cases hk
    simp [pathPairs, hm rfl, allTrue]
  | rightSemi | rightAnti => cases hs

lemma PlannedJoin.logical (h : PlannedJoin p sem rs out tag j ss outer i)
    (hs : (normalizedType j).2 = false) :
    LogicalJoin p sem rs j ss i.ppiClauses i.moved (sem.output outer.parent)
      (sem.output i.parent) (wholeRows sem rs j ss outer i) out.visible := by
  refine ⟨fun kind hk => ?_, fun r => ?_, ?_, h.movedBelow, h.serials, h.evaluates, h.equivalent⟩
  · have hm (hn : kind.isNested = false) : i.moved = [] := by
      refine h.moved_of_ne ?_
      refine ⟨?_, ?_, ?_, ?_⟩ <;> (rintro rfl; cases hk; cases hn)
    rw [wholeRows, pathRows, pathPairs_of_ordered sem.truth hs hk _ hm]
    rfl
  · rw [h.visible]
    cases j with
    | rightSemi | rightAnti => cases hs
    | _ => simp [PgJoinType.visible, normalizedType, JoinType.emitsRight]
  · rw [h.ppiClauses]
    split_ifs
    · exact fun _ hme => hme
    · simp

/-- A right semi- or antijoin is the left one of the swapped inputs. -/
lemma PlannedJoin.logical_swapped (h : PlannedJoin p sem rs out tag j ss outer i)
    (hsw : (normalizedType j).2 = true) :
    LogicalJoin p sem rs j ss outer.ppiClauses outer.moved (sem.output i.parent)
      (sem.output outer.parent) (wholeRows sem rs j ss outer i) out.visible := by
  have hm : i.moved = [] := by
    refine h.moved_of_ne ?_
    refine ⟨?_, ?_, ?_, ?_⟩ <;> (rintro rfl; cases hsw)
  obtain ⟨hom, hoc⟩ := h.outerMoved
  have hco (l : Row ℤ) (hl : l ∈ (sem.output i.parent).rows) (r : Row ℤ)
      (hr : r ∈ (sem.output outer.parent).rows) : Row.merge r l = Row.merge l r :=
    merge_comm_of_disjoint h.disjoint hr hl
  have hs := h.serials
  have hev := h.evaluates
  have he := h.equivalent
  rw [hm] at hs hev he
  rw [hom, hoc]
  refine ⟨fun kind hk => ?_, fun t => ?_, by simp, by simp, hs, ?_, ?_⟩
  · have hp : pathPairs sem.truth j (allTrue sem.truth (joinQuals rs j ss)) []
        (sem.output outer.parent).rows (sem.output i.parent).rows =
          joinRows kind (fun l r => matchQuals sem rs j ss [] (.merge l r))
            (sem.output i.parent).rows (sem.output outer.parent).rows := by
      have ho (kind : JoinKind) : joinRows kind (fun l r =>
          allTrue sem.truth (joinQuals rs j ss) (.merge r l))
            (sem.output i.parent).rows (sem.output outer.parent).rows =
          joinRows kind (fun l r => matchQuals sem rs j ss [] (.merge l r))
            (sem.output i.parent).rows (sem.output outer.parent).rows :=
        joinRows_congr kind fun l hl r hr => by rw [hco l hl r hr]; rfl
      cases j with
      | rightSemi => cases hk; exact ho .leftSemi
      | rightAnti => cases hk; exact ho .leftAnti
      | _ => cases hsw
    rw [wholeRows, hm, pathRows, hp]
  · rw [h.visible]
    cases j with
    | rightSemi | rightAnti => simp [PgJoinType.visible, normalizedType, JoinType.emitsRight]
    | _ => cases hsw
  · intro restriction hre hrea
    refine hev restriction hre fun c hc hlo => ?_
    rw [Finset.union_comm]
    exact hrea c hc hlo
  · intro restriction hre key hke first s hf hse hv hcr l hl r hr
    rw [← hco l hl r hr]
    exact he restriction hre key hke first s hf hse hv hcr.symm r hr l hl

end OneJoin

/-! ## Unique inputs -/

/-- A row that is dropped when an input is made unique meets no row of the other
input under the join's clauses. -/
def DropsUnmatched (sem : PgSemantics) (restrictions : List JoinRestriction)
    (left right : InputPath) : Prop :=
  ∀ droppedLeft droppedRight,
    (sem.output left.parent).rows = sem.input left + droppedLeft →
    (sem.output right.parent).rows = sem.input right + droppedRight →
      (∀ l ∈ droppedLeft, ∀ r ∈ (sem.output right.parent).rows,
        allTrue sem.truth (right.moved ++ restrictions) (.merge l r) = false) ∧
      ∀ l ∈ sem.input left, ∀ r ∈ droppedRight,
        allTrue sem.truth (right.moved ++ restrictions) (.merge l r) = false

section UniqueInputs

variable {sem : PgSemantics} {rs : Finset ℤ} {output : Output} {tag : JoinPathTag}
  {jointype : PgJoinType} {restrictions : List JoinRestriction} {outer i left right : InputPath}

section

variable {i : InputPath} {output : Output} {rows : Multiset (Row ℤ)} (h : i.Yields output rows)

include h

lemma InputPath.Yields.eq_of_whole (hu : i.uniqueOn = none) : rows = output.rows := by
  rwa [InputPath.Yields, hu] at h

lemma InputPath.Yields.exists_dropped : ∃ d, output.rows = rows + d := by
  cases hu : i.uniqueOn with
  | none => exact ⟨0, by rw [h.eq_of_whole hu, add_zero]⟩
  | some c =>
    rw [InputPath.Yields, hu] at h
    exact Multiset.le_iff_exists_add.mp h.1

end

lemma dropsUnmatched_of_whole (hl : sem.input left = (sem.output left.parent).rows)
    (hr : sem.input right = (sem.output right.parent).rows) :
    DropsUnmatched sem restrictions left right := by
  intro d r hdl hdr
  rw [hl, left_eq_add] at hdl
  rw [hr, left_eq_add] at hdr
  rw [hdl, hdr]
  simp

lemma pathRows_inner (ss moved : List JoinRestriction) (outerRows innerRows) :
    pathRows sem.truth rs .inner ss moved outerRows innerRows =
      (matchedPairs (fun l r => allTrue sem.truth (moved ++ ss) (.merge l r)) outerRows
        innerRows).map Row.joined := by
  have hq : joinQuals rs .inner ss = ss := filter_eq_self.mpr fun _ _ => rfl
  have ho : otherQuals rs .inner ss = [] :=
    filter_eq_nil_iff.mpr fun _ _ => by simp [isOtherQual, PgJoinType.isOuterJoin]
  rw [pathRows, hq, ho, pathPairs_of_ordered sem.truth rfl rfl _ (fun h => by cases h)]
  simp [allTrue, joinRows]

section

variable (h : PlannedJoin p sem rs output tag jointype restrictions outer i)

include h

lemma PlannedJoin.whole_of_ne_inner (hne : jointype ≠ .inner) :
    sem.input outer = (sem.output outer.parent).rows ∧
      sem.input i = (sem.output i.parent).rows ∧
      wholeRows sem rs jointype restrictions outer i = output.rows := by
  have hu := mt h.uniqueInner hne
  rw [not_or, Option.not_isSome_iff_eq_none, Option.not_isSome_iff_eq_none] at hu
  have ho := h.outerYields.eq_of_whole hu.1
  have hi := h.innerYields.eq_of_whole hu.2
  exact ⟨ho, hi, by rw [h.rows, ho, hi, wholeRows]⟩

/-- A join with unique inputs has the rows of the join of the whole inputs exactly
if the dropped rows have no match. -/
lemma PlannedJoin.wholeRows_iff : wholeRows sem rs jointype restrictions outer i = output.rows ↔
      DropsUnmatched sem restrictions outer i := by
  by_cases hi : jointype = .inner
  · obtain ⟨d, hdl⟩ := h.outerYields.exists_dropped
    obtain ⟨r, hdr⟩ := h.innerYields.exists_dropped
    subst hi
    rw [h.rows, wholeRows, pathRows_inner, pathRows_inner, hdl, matchedPairs_add_left]
    nth_rewrite 1 [hdr]
    rw [matchedPairs_add_right, Multiset.map_add, Multiset.map_add, add_assoc, add_eq_left,
      add_eq_zero, Multiset.map_eq_zero, Multiset.map_eq_zero, matchedPairs_eq_zero_iff,
      matchedPairs_eq_zero_iff]
    constructor
    · rintro ⟨hr, hl⟩ l o hol ho
      rw [hdl, add_right_inj] at hol
      rw [hdr, add_right_inj] at ho
      rw [← hol, ← ho]
      exact ⟨hl, hr⟩
    · intro hd
      exact (hd d r hdl hdr).symm
  · obtain ⟨hou, hi, hro⟩ := h.whole_of_ne_inner hi
    exact iff_of_true hro (dropsUnmatched_of_whole hou hi)

lemma PlannedJoin.whole_of_swapped (hs : (normalizedType jointype).2 = true) :
    wholeRows sem rs jointype restrictions outer i = output.rows ∧
      DropsUnmatched sem restrictions i outer := by
  obtain ⟨ho, hi, hr⟩ := h.whole_of_ne_inner (by rintro rfl; cases hs)
  exact ⟨hr, dropsUnmatched_of_whole hi ho⟩

end

end UniqueInputs

/-! ## The rows of a rebuilt join -/

def scansOf (root : ℕ) (visible : Finset ℤ) (scan : ScanId) : Prop :=
  scan.root = root ∧ scan.rti ∈ visible

/-- A rebuilt join whose clauses all have a role. -/
structure RebuiltJoin (planner : RelationTreePlanner σ) (sem : PgSemantics)
    (scope : JoinRestrictionScope) (jointype : PgJoinType)
    (restrictions parameterized moved : List JoinRestriction) (left right : Output)
    (rows : Multiset (Row ℤ)) (emitted : Finset ℤ) (roles : List (JoinRestriction × JoinRole))
    (predicates : JoinLevelPredicates) : Prop where
  joined : LogicalJoin planner sem scope.relids jointype restrictions parameterized moved left right
    rows emitted
  logicalType : scope.joinType = (normalizedType jointype).1
  symmetric : SymmetricKeys planner.facts sem.context.backend
  leftOutputs : scope.left.Outputs (scansOf planner.root left.visible)
  rightOutputs : scope.right.Outputs (scansOf planner.root right.visible)
  assigned : planner.Assigned scope roles predicates
  examined : ∀ assigned ∈ roles, assigned.1 ∈ restrictions ++ parameterized
  complete : ∀ restriction ∈ restrictions ++ moved, restriction.rinfoSerial ∈ predicates.applied

namespace RebuiltJoin

variable {sem : PgSemantics} {s : JoinRestrictionScope} {j : PgJoinType}
  {ss parameterized moved : List JoinRestriction} {left right : Output} {rows : Multiset (Row ℤ)}
  {emitted : Finset ℤ} {roles : List (JoinRestriction × JoinRole)} {ps : JoinLevelPredicates}
  (h : RebuiltJoin p sem s j ss parameterized moved left right rows emitted roles ps)

include h

lemma known {a : JoinRestriction × JoinRole} (ha : a ∈ roles) : a.1 ∈ ss ++ moved := by
  rcases mem_append.mp (h.examined a ha) with ho | hr
  · exact mem_append_left _ ho
  · exact mem_append_right _ (h.joined.parameterized _ hr)

variable {t : JoinRestriction}

lemma exists_role (hm : t ∈ ss ++ moved) :
    ∃ a ∈ roles, a.2.isMatch = !isOtherQual s.relids j t ∧
      ∀ row, sem.truth a.1 row = sem.truth t row := by
  have hap := h.complete t hm
  rw [h.assigned.applied, mem_map] at hap
  obtain ⟨a, ha, hs⟩ := hap
  obtain ⟨hp, ht⟩ := h.joined.serials _ (h.known ha) _ hm hs
  refine ⟨a, ha, ?_, ht⟩
  rw [plays_isMatch h.logicalType (h.assigned.plays a ha), isOtherQual, hp, ← isOtherQual]

/-- The clauses in match roles are all TRUE exactly if the join's own and the moved
match conditions are. -/
lemma matchRoles_iff (row : Row ℤ) :
    (∀ a ∈ roles, a.2.isMatch = true → sem.truth a.1 row = some true) ↔
      matchQuals sem s.relids j ss moved row = true := by
  have hfr (hal : ∀ a ∈ roles, a.2.isMatch = true →
      sem.truth a.1 row = some true) (t : JoinRestriction)
      (hme : t ∈ ss ++ moved)
      (hm : isOtherQual s.relids j t = false) :
      sem.truth t row = some true := by
    obtain ⟨a, ha, hr, ht⟩ := h.exists_role hme
    rw [← ht row]
    exact hal a ha (by rw [hr, hm]; rfl)
  simp only [matchQuals, allTrue, joinQuals, Bool.and_eq_true, all_eq_true, beq_iff_eq,
    mem_filter, Bool.not_eq_true']
  constructor
  · intro hal
    refine ⟨fun t hmo => ?_, fun t ho => ?_⟩
    · exact hfr hal t (mem_append_right _ hmo) (h.joined.movedBelow t hmo)
    · exact hfr hal t (mem_append_left _ ho.1) ho.2
  · rintro ⟨hmo, ho⟩ a ha hm
    rw [plays_isMatch h.logicalType (h.assigned.plays a ha), Bool.not_eq_true'] at hm
    rcases mem_append.mp (h.known ha) with hi | hi
    · exact ho a.1 ⟨hi, hm⟩
    · exact hmo a.1 hi

/-- The clauses above the join are all TRUE exactly if the other quals are. -/
lemma postRoles_iff (row : Row ℤ) :
    (∀ a ∈ roles, a.2.isMatch = false → sem.truth a.1 row = some true) ↔
      allTrue sem.truth (otherQuals s.relids j ss) row = true := by
  simp only [allTrue, otherQuals, all_eq_true, beq_iff_eq, mem_filter]
  constructor
  · rintro hal t ⟨how, ho⟩
    obtain ⟨a, ha, hr, ht⟩ := h.exists_role (mem_append_left _ how)
    rw [← ht row]
    exact hal a ha (by rw [hr, ho]; rfl)
  · intro hal a ha hm
    rw [plays_isMatch h.logicalType (h.assigned.plays a ha), Bool.not_eq_false'] at hm
    rcases mem_append.mp (h.known ha) with hi | hi
    · exact hal a.1 ⟨hi, hm⟩
    · rw [h.joined.movedBelow a.1 hi] at hm
      cases hm

lemma key_truth {o : JoinKey} (hro : (t, .key o) ∈ roles) {l r : Row ℤ}
    (hl : l ∈ left.rows) (hr : r ∈ right.rows) :
    sem.context.keyTruth (toScan p.root (.merge l r)) o = sem.truth t (.merge l r) := by
  obtain ⟨-, key, hk, ho⟩ := h.assigned.plays _ hro
  obtain ⟨hlr, hrr, hv⟩ := lowerRestrictinfoJoinKey_spec hk
  obtain ⟨f, s, hf, hs, hfr, hsr, hv, hc⟩ := orientedKeys_spec hv ho
  rw [hlr] at hf hfr
  rw [hrr] at hs hsr
  have hlef := ((h.leftOutputs.emits _).mp hc.left).2
  have hri := ((h.rightOutputs.emits _).mp hc.right).2
  have ht := h.joined.equivalent t (h.known hro) key hk f s hf hs hv
  rcases hc.same with rfl | rfl
  · rw [ht (.inl ⟨hlef, hri⟩) l hl r hr]
    exact keyTruth_toScan sem.context (.merge l r) hfr hsr
  · rw [ht (.inr ⟨hri, hlef⟩) l hl r hr]
    refine (keyTruth_toScan sem.context (.merge l r) hsr hfr).trans ?_
    exact h.symmetric ⟨f, s, key.operator⟩ hv _ _

variable {lq rq : QueryNode} {lp rp plan : DfPlan} {kind : JoinKind}
  (hp : LevelPlan p.isLocal s ps lq rq lp rp plan kind)

include hp

lemma filter_truth (hm : t ∈ ss ++ moved)
    (hf : (⟨p.root, t.clause⟩ : ExecutionExpr) ∈ ps.onFilters ++ ps.postFilters) (row : Row ℤ) :
    sem.context.execTruth (toScan p.root row) ⟨p.root, t.clause⟩ = sem.truth t row := by
  rw [execTruth_toScan]
  refine (h.joined.evaluates t hm (fun c hc hl => ?_) row).symm
  have hs : (⟨p.root, c.1⟩ : ScanId) ∈ (⟨p.root, t.clause⟩ : ExecutionExpr).scans p.isLocal := by
    rw [ExecutionExpr.scans, mem_map]
    exact ⟨c, mem_filter.mpr ⟨hc, hl⟩, rfl⟩
  rw [Finset.mem_union]
  rcases hp.visible _ hf _ hs with hlef | hr
  · exact .inl ((h.leftOutputs.columns lq hp.leftNode _).mp hlef).2
  · exact .inr ((h.rightOutputs.columns rq hp.rightNode _).mp hr).2

/-- Filters taken from clauses in some roles are TRUE exactly if the clauses are. -/
lemma filters_iff {fs : List ExecutionExpr} {r : JoinRole → Bool}
    (hf : fs = p.clauseFilters r roles) (hre : fs ⊆ ps.onFilters ++ ps.postFilters) (row : Row ℤ) :
    (∀ e ∈ fs, sem.context.execTruth (toScan p.root row) e = some true) ↔
      ∀ a ∈ roles, r a.2 = true → sem.truth a.1 row = some true := by
  have ht (a : JoinRestriction × JoinRole) (ha : a ∈ roles) (hr : r a.2 = true) :
      sem.context.execTruth (toScan p.root row) ⟨p.root, a.1.clause⟩ = sem.truth a.1 row := by
    refine h.filter_truth hp (h.known ha) (hre ?_) row
    rw [hf]
    exact mem_map.mpr ⟨a, mem_filter.mpr ⟨ha, hr⟩, rfl⟩
  rw [hf, clauseFilters, forall_mem_map]
  simp only [mem_filter, and_imp]
  exact forall₃_congr fun a ha hr => by rw [ht a ha hr]

/-- The conditions of the join are the clauses that have a match role. -/
lemma joinsOn_iff {l r : Row ℤ} (hl : l ∈ left.rows) (hr : r ∈ right.rows) :
    joinsOn sem.context ps.keys ps.onFilters (toScan p.root (.merge l r)) = true ↔
      ∀ a ∈ roles, a.2.isMatch = true → sem.truth a.1 (.merge l r) = some true := by
  simp only [joinsOn, Bool.and_eq_true, all_eq_true, beq_iff_eq]
  rw [h.filters_iff hp h.assigned.onFilters (subset_append_left _ _)]
  constructor
  · rintro ⟨hk, hf⟩ ⟨t, role⟩ hro hm
    cases role with
    | key o =>
      rw [← h.key_truth hro hl hr]
      exact hk o ((h.assigned.keys o).mpr ⟨t, hro⟩)
    | onFilter => exact hf _ hro rfl
    | postFilter => cases hm
  · intro ha
    constructor
    · intro o ho
      obtain ⟨t, hro⟩ := (h.assigned.keys o).mp ho
      rw [h.key_truth hro hl hr]
      exact ha _ hro rfl
    · rintro ⟨t, role⟩ hro hof
      cases role with
      | onFilter => exact ha _ hro rfl
      | _ => cases hof

/-- The filters above the join are the clauses that have no match role. -/
lemma keeps_iff (row : Row ℤ) : keeps sem.context ps.postFilters (toScan p.root row) = true ↔
      ∀ a ∈ roles, a.2.isMatch = false → sem.truth a.1 row = some true := by
  simp only [keeps, all_eq_true, beq_iff_eq]
  rw [h.filters_iff hp h.assigned.postFilters (subset_append_right _ _)]
  refine forall₂_congr fun a _ => ?_
  cases a.2 <;> simp [JoinRole.isMatch]

/-- A rebuilt join yields what PostgreSQL's join yields. -/
lemma plan_rows (hle : lp.rows sem.context = left.rows.map (toScan p.root))
    (hri : rp.rows sem.context = right.rows.map (toScan p.root)) :
    plan.rows sem.context = rows.map (toScan p.root) := by
  have hki := h.logicalType ▸ hp.joinKind
  have hm (l : Row ℤ) (hl : l ∈ left.rows) (r : Row ℤ) (hr : r ∈ right.rows) :
      joinsOn sem.context ps.keys ps.onFilters (.merge (toScan p.root l) (toScan p.root r)) =
        matchQuals sem s.relids j ss moved (.merge l r) := by
    rw [← toScan_merge, Bool.eq_iff_iff, h.joinsOn_iff hp hl hr, h.matchRoles_iff]
  have hk (row : Row ℤ) : keeps sem.context ps.postFilters (toScan p.root row) =
      true ↔ allTrue sem.truth (otherQuals s.relids j ss) row = true := by
    rw [h.keeps_iff hp row, h.postRoles_iff]
  rw [hp.rows, hle, hri, joinRows_map, joinRows_congr kind hm, h.joined.rows kind hki,
    Multiset.map_map]
  have hj : Row.joined ∘ translate (toScan p.root) (toScan p.root) =
      toScan p.root ∘ Row.joined := funext (toScan_joined p.root)
  rw [hj, ← Multiset.map_map, Multiset.filter_map]
  congr 1
  exact Multiset.filter_congr fun row _ => hk row

end RebuiltJoin

end LagoDB.RelationTree
