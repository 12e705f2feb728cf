import LagoDB.JoinReconstruction

/-!
# Whole relation trees

A tree is rebuilt from the paths of a relation, join by join.
-/
namespace LagoDB.RelationTree

open ExceptLoop List Option RelationTreePlanner

variable {σ : Type} {planner p : RelationTreePlanner σ}

/-! ## Reproduced relations -/

/-- PostgreSQL and the planner agree on what is outside of their reach: which
variables belong to a scope, and that equality is symmetric. -/
structure Agrees (planner : RelationTreePlanner σ) (sem : PgSemantics) : Prop where
  isLocal : sem.context.isLocal = planner.isLocal
  symmetric : SymmetricKeys planner.facts sem.context.backend

/-- The plan of a tree, if there is one, has certain rows. -/
def HasRows (planner : RelationTreePlanner σ) (sem : PgSemantics) (tree : RelationNode)
    (rows : Multiset (Row ℤ)) : Prop :=
  ∀ plan, tree.plan planner.isLocal = some plan →
    plan.rows sem.context = rows.map (toScan planner.root)

namespace RelationTreePlanner.JoinTrace

/-- Both inputs of a join have the rows of their relations. -/
def KeepsInputs (planner : RelationTreePlanner σ) (sem : PgSemantics) (trace : JoinTrace) : Prop :=
  HasRows planner sem trace.scope.left (sem.output trace.leftInput.parent).rows ∧
    HasRows planner sem trace.scope.right (sem.output trace.rightInput.parent).rows

/-- A row dropped from a unique input meets no row of the other input. -/
def DropsUnmatched (sem : PgSemantics) (trace : JoinTrace) : Prop :=
  LagoDB.RelationTree.DropsUnmatched sem trace.restrictions trace.leftInput trace.rightInput

end RelationTreePlanner.JoinTrace

/-- A traced tree has the columns of a relation. It and the inputs of all its joins
have the rows PostgreSQL computes exactly if unique inputs drop unmatched rows only. -/
structure RebuiltFor (planner : RelationTreePlanner σ) (sem : PgSemantics) (output : Output)
    (traced : RelationTreePlanner.TracedTree) : Prop where
  outputs : traced.1.Outputs (scansOf planner.root output.visible)
  whole : ∀ trace ∈ traced.2, trace.uniqueInput = false → trace.DropsUnmatched sem
  rows : ∀ plan, traced.1.plan planner.isLocal = some plan →
    ((HasRows planner sem traced.1 output.rows ∧
        ∀ trace ∈ traced.2, trace.KeepsInputs planner sem) ↔
      ∀ trace ∈ traced.2, trace.DropsUnmatched sem)

/-- The joins of a traced tree are well built, and unless one of them loses a clause
the tree is one for what is claimed. -/
def Rebuilt (planner : RelationTreePlanner σ) (claim : PgSemantics → Output → Prop)
    (traced : RelationTreePlanner.TracedTree) : Prop :=
  (∀ trace ∈ traced.2, trace.WellBuilt planner) ∧
    ∀ sem output, Agrees planner sem → claim sem output → (∀ trace ∈ traced.2, trace.Recovers) →
      RebuiltFor planner sem output traced

/-! ## One join -/

lemma toScan_injective (r : ℕ) : Function.Injective (toScan r) :=
  Function.LeftInverse.injective (scopeRow_toScan r)

section Level

variable {sem : PgSemantics} {rs : Finset ℤ} {j : PgJoinType} {ss : List JoinRestriction}

open RelationTreePlanner

lemma normalizedType_ne_mark (j : PgJoinType) : (normalizedType j).1 ≠ .leftMark := by
  cases j <;> decide

open RelationTreePlanner.JoinTrace

variable {l : RelationNode × RelationTreePlanner.JoinTrace} {li ri : InputPath}

/-- A join without lost clauses has the columns of the planned join, and its rows if
the inputs have theirs. -/
lemma BuiltLevel.rows {s : JoinRestrictionScope} {par : List JoinRestriction} {left right : Output}
    {rs : Multiset (Row ℤ)} {e : Finset ℤ} (h : p.BuiltLevel s ss par li ri l)
    (hag : Agrees p sem) (ht : s.joinType = (normalizedType j).1)
    (hj : LogicalJoin p sem s.relids j ss par ri.moved left right rs e)
    (hle : s.left.Outputs (scansOf p.root left.visible))
    (hri : s.right.Outputs (scansOf p.root right.visible)) (hw : l.2.WellBuilt p)
    (hr : l.2.Recovers) :
    l.1.Outputs (scansOf p.root e) ∧ (HasRows p sem s.left left.rows →
      HasRows p sem s.right right.rows → HasRows p sem l.1 rs) := by
  obtain ⟨-, hc, r, ha, hro⟩ := (appliesOnce_iff hw).mpr hr
  rw [h.traced] at ha
  rw [h.restrictions, h.parameterized] at hro
  rw [h.restrictions, moved, h.rightInput] at hc
  have hre : RebuiltJoin p sem s j ss par ri.moved left right rs e r l.2.predicates :=
    ⟨hj, ht, hag.symmetric, hle, hri, ha, fun a hm => (hro a hm).1, hc⟩
  rw [h.node]
  refine ⟨?_, fun hlr hrr plan hp => ?_⟩
  · have hv : (fun scan => scansOf p.root left.visible scan ∨
        s.joinType.emitsRight = true ∧ scansOf p.root right.visible scan) = scansOf p.root e := by
      ext scan
      rw [scansOf, scansOf, scansOf, hj.visible, ht]
      tauto
    rw [← hv]
    exact levelNode_outputs hle hri
  · obtain ⟨lq, rq, lp, rp, k, hl⟩ := levelPlan_of_plan hp
    exact hre.plan_rows hl (hlr lp hl.leftPlan) (hrr rp hl.rightPlan)

/-- What the contract says about a join whose inputs are in the tree's order. -/
structure LevelClaim (planner : RelationTreePlanner σ) (sem : PgSemantics) (relids : Finset ℤ)
    (jointype : PgJoinType) (restrictions : List JoinRestriction) (leftInput rightInput : InputPath)
    (output : Output) (whole : Multiset (Row ℤ)) : Prop where
  joined : LogicalJoin planner sem relids jointype restrictions rightInput.ppiClauses
    rightInput.moved (sem.output leftInput.parent) (sem.output rightInput.parent) whole
    output.visible
  wholeRows : whole = output.rows ↔ DropsUnmatched sem restrictions leftInput rightInput
  leftYields : leftInput.Yields (sem.output leftInput.parent) (sem.input leftInput)
  rightYields : rightInput.Yields (sem.output rightInput.parent) (sem.input rightInput)

section

variable {tag : JoinPathTag} {o i : InputPath} {out : Output}
  (h : PlannedJoin p sem rs out tag j ss o i)

include h

lemma PlannedJoin.levelClaim (hs : (normalizedType j).2 = false) :
    LevelClaim p sem rs j ss o i out (LagoDB.RelationTree.wholeRows sem rs j ss o i) :=
  ⟨h.logical hs, h.wholeRows_iff, h.outerYields, h.innerYields⟩

lemma PlannedJoin.levelClaim_swapped (hs : (normalizedType j).2 = true) :
    LevelClaim p sem rs j ss i o out (LagoDB.RelationTree.wholeRows sem rs j ss o i) := by
  obtain ⟨hw, hd⟩ := h.whole_of_swapped hs
  exact ⟨h.logical_swapped hs, iff_of_true hw hd, h.innerYields, h.outerYields⟩

end

lemma RebuiltFor.join {left right : RelationTreePlanner.TracedTree} {out : Output}
    {w : Multiset (Row ℤ)} (hle : RebuiltFor p sem (sem.output li.parent) left)
    (hr : RebuiltFor p sem (sem.output ri.parent) right)
    (hl : p.BuiltLevel ⟨rs, left.1, right.1, (normalizedType j).1⟩ ss ri.ppiClauses li ri l)
    (ha : Agrees p sem) (hc : LevelClaim p sem rs j ss li ri out w) (hw : l.2.WellBuilt p)
    (hre : l.2.Recovers) : RebuiltFor p sem out (l.1, left.2 ++ right.2 ++ [l.2]) := by
  obtain ⟨ho, hro⟩ := BuiltLevel.rows hl ha rfl hc.joined hle.outputs hr.outputs hw hre
  have hi : l.2.KeepsInputs p sem ↔ HasRows p sem left.1 (sem.output li.parent).rows ∧
        HasRows p sem right.1 (sem.output ri.parent).rows := by
    rw [RelationTreePlanner.JoinTrace.KeepsInputs, hl.traced, hl.leftInput, hl.rightInput]
  have hdr : l.2.DropsUnmatched sem ↔
      DropsUnmatched sem ss li ri := by
    rw [RelationTreePlanner.JoinTrace.DropsUnmatched, hl.restrictions, hl.leftInput, hl.rightInput]
  refine ⟨ho, ?_, fun plan hpl => ?_⟩
  · simp only [forall_mem_append, forall_mem_singleton]
    refine ⟨⟨hle.whole, hr.whole⟩, fun hu => hdr.mpr ?_⟩
    rw [uniqueInput, hl.leftInput, hl.rightInput, Bool.or_eq_false_iff, isSome_eq_false_iff,
      isNone_iff_eq_none, isSome_eq_false_iff, isNone_iff_eq_none] at hu
    exact dropsUnmatched_of_whole (hc.leftYields.eq_of_whole hu.1) (hc.rightYields.eq_of_whole hu.2)
  · simp only [forall_mem_append, forall_mem_singleton, hi, hdr]
    have hp := hpl
    rw [hl.node] at hp
    obtain ⟨_, _, lp, r, _, hp⟩ := levelPlan_of_plan hp
    have hlr := hle.rows lp hp.leftPlan
    have hrr := hr.rows r hp.rightPlan
    constructor
    · rintro ⟨hj, ⟨hli, hri⟩, hlef, hrt⟩
      refine ⟨⟨hlr.mp ⟨hlef, hli⟩, hrr.mp ⟨hrt, hri⟩⟩, ?_⟩
      have hs := (hro hlef hrt plan hpl).symm.trans (hj plan hpl)
      exact hc.wholeRows.mp (Multiset.map_injective (toScan_injective p.root) hs)
    · rintro ⟨⟨hld, hrd⟩, hd⟩
      obtain ⟨hlef, hli⟩ := hlr.mpr hld
      obtain ⟨hrt, hri⟩ := hrr.mpr hrd
      have hj := hro hlef hrt
      rw [hc.wholeRows.mpr hd] at hj
      exact ⟨hj, ⟨hli, hri⟩, hlef, hrt⟩

end Level

/-! ## Relations and their paths -/

lemma buildersOf_eq_map (a : Bool) (rs : Finset ℤ) (pathlist : List Path) :
    p.buildersOf a rs pathlist = pathlist.map fun path => (path, p.buildPath a rs path) := by
  induction pathlist with
  | nil => rw [buildersOf]; rfl
  | cons path r ih => rw [buildersOf, ih]; rfl

variable {base : BaseRelations p}

lemma pathsConsistent_mem {sem : PgSemantics} {rs ls : Finset ℤ} {out : Output}
    {pathlist : List Path} {path : Path} (h : PathsConsistent p base sem rs ls out pathlist)
    (hm : path ∈ pathlist) : PathConsistent p base sem rs ls out path := by
  induction pathlist with
  | nil => cases hm
  | cons c r ih =>
    rcases mem_cons.mp hm with rfl | hr
    · exact h.1
    · exact ih h.2 hr

/-- The rows of a relation are its own output. -/
def relationClaim (base : BaseRelations planner) (relation : RelOptInfo) (sem : PgSemantics)
    (output : Output) : Prop :=
  output = sem.output relation ∧ relation.Consistent planner base sem

lemma joinInputs_rebuilt {rs : Finset ℤ} {j : PgJoinType} {ss : List JoinRestriction}
    {c : PgSemantics → Output → Prop} {li ri : InputPath}
    {b r : Planning σ RelationTreePlanner.TracedTree}
    (hle : Yields b (Rebuilt p (relationClaim base li.parent)))
    (hri : Yields r (Rebuilt p (relationClaim base ri.parent)))
    (hc : ∀ sem out, c sem out → li.parent.Consistent p base sem ∧ ri.parent.Consistent p base sem ∧
      ∃ w, LevelClaim p sem rs j ss li ri out w) :
    Yields (p.joinInputs rs (normalizedType j).1 ss li ri b r) (Rebuilt p c) := by
  refine hle.bind fun left hlef => hri.bind fun right hrt => ?_
  refine (buildJoinLevel_built ss ri.ppiClauses li ri).bind fun l hlev => ?_
  have hw : l.2.WellBuilt p := by
    refine ⟨?_, ?_⟩
    · rw [hlev.traced]
      exact hlev.classified
    · rw [hlev.traced]
      exact normalizedType_ne_mark j
  refine Yields.pure ⟨?_, fun sem out ha hs hr => ?_⟩
  · simp only [forall_mem_append, forall_mem_singleton]
    exact ⟨⟨hlef.1, hrt.1⟩, hw⟩
  · simp only [forall_mem_append, forall_mem_singleton] at hr
    obtain ⟨⟨hl, hrr⟩, hlr⟩ := hr
    obtain ⟨hlc, hrc, w, hleve⟩ := hc sem out hs
    exact (hlef.2 sem _ ha ⟨rfl, hlc⟩ hl).join (hrt.2 sem _ ha ⟨rfl, hrc⟩ hrr) hlev ha hleve hw hlr

/-- A path that can be selected yields the output. -/
def pathClaim (base : BaseRelations planner) (relids : Finset ℤ) (path : Path) (sem : PgSemantics)
    (output : Output) : Prop :=
  ∃ lateralRelids, path.isStandardJoin lateralRelids = true ∧
    PathConsistent planner base sem relids lateralRelids output path

lemma Rebuilt.mono {c s : PgSemantics → Output → Prop} {t : RelationTreePlanner.TracedTree}
    (h : Rebuilt p c t) (hc : ∀ sem out, s sem out → c sem out) : Rebuilt p s t :=
  ⟨h.1, fun sem out ha hs => h.2 sem out ha (hc sem out hs)⟩

lemma scansOf_singleton (root : ℕ) (r : ℤ) : scansOf root {r} = fun s => s = ⟨root, r⟩ := by
  ext s
  rw [scansOf, Finset.mem_singleton]
  exact ⟨fun ⟨hr, hrt⟩ => by rw [← hr, ← hrt], fun heq => by simp [heq]⟩

lemma buildBase_rebuilt (base : BaseRelations p) (a : Bool) (r : ℤ) :
    Yields (p.buildTraced a (.base r)) (Rebuilt p (relationClaim base (.base r))) := by
  refine (base.built ⟨p.root, r⟩ a rfl).bind fun n hn => ?_
  refine Yields.pure ⟨by simp, ?_⟩
  rintro sem o - ⟨rfl, hl, hv, hc⟩ -
  have hs := scansOf_singleton p.root r
  rw [← hv] at hs
  have hro : HasRows p sem n (sem.output (.base r)).rows := by
    intro plan hp
    rw [hn.2 sem.context plan hl hp, hc, Multiset.map_map]
    exact Multiset.map_congr rfl fun t _ => (toScan_relationRow p.root r t).symm
  exact ⟨hs ▸ hn.1, by simp, fun _ _ => by simpa using hro⟩

mutual

lemma buildTraced_rebuilt (base : BaseRelations p) (a : Bool) :
    ∀ r : RelOptInfo, Yields (p.buildTraced a r) (Rebuilt p (relationClaim base r))
  | .base relid => buildBase_rebuilt base a relid
  | .join relids lateralRelids pathlist => by
    rw [buildTraced, buildersOf_eq_map]
    cases hs : selectCandidate lateralRelids
        (pathlist.map fun path => (path, p.buildPath a relids path)) with
    | none => exact decline_yields _
    | some c =>
      obtain ⟨hm, hb, hst⟩ := selectCandidate_mem hs
      have hp := buildPaths_rebuilt base a relids pathlist c.1 hm
      rw [map_some, hb]
      refine hp.mono fun t ht => ht.mono fun sem out hcl => ?_
      obtain ⟨rfl, hc⟩ := hcl
      exact ⟨lateralRelids, hst, pathsConsistent_mem hc hm⟩
  | .other => by
    exact decline_yields _

lemma buildPaths_rebuilt (base : BaseRelations p) (a : Bool) (rs : Finset ℤ) :
    ∀ (pathlist : List Path) (path : Path), path ∈ pathlist → Yields (p.buildPath a rs path)
      (Rebuilt p (pathClaim base rs path))
  | [], _, hm => by cases hm
  | first :: rest, path, hm => by
    rcases mem_cons.mp hm with heq | hr
    · rw [heq]
      exact buildPath_rebuilt base a rs first
    · exact buildPaths_rebuilt base a rs rest path hr

lemma buildPath_rebuilt (base : BaseRelations p) (a : Bool) (rs : Finset ℤ) :
    ∀ path : Path, Yields (p.buildPath a rs path) (Rebuilt p (pathClaim base rs path))
  | .wrapped tag cost subpath => by
    refine (buildPath_rebuilt base a rs subpath).mono fun t ht =>
      ht.mono fun sem out hcl => ?_
    obtain ⟨ls, hs, hc⟩ := hcl
    exact ⟨ls, hs, hc⟩
  | .join tag cost j paramInfo restrictions (.mk o outerParam outerMoved outerUnique)
      (.mk i innerParam innerMoved innerUnique) => by
    rw [buildPath]
    have ho := buildTraced_rebuilt base a o
    have hi := buildTraced_rebuilt base a i
    split_ifs with hsw
    on_goal 1 => refine joinInputs_rebuilt hi ho fun sem out hcl => ?_
    on_goal 2 => refine joinInputs_rebuilt ho hi fun sem out hcl => ?_
    all_goals
      obtain ⟨ls, hs, hc⟩ := hcl
      obtain ⟨hj, hoc, hic⟩ := hc (of_decide_eq_true hs)
    · exact ⟨hic, hoc, _, hj.levelClaim_swapped hsw⟩
    · exact ⟨hoc, hic, _, hj.levelClaim (Bool.not_eq_true _ ▸ hsw)⟩
  | .other cost => by
    exact decline_yields _

end

end LagoDB.RelationTree
