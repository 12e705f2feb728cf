import LagoDB.JoinTrees

/-!
# What rebuilt trees guarantee

A tree rebuilt from join paths keeps every clause and all rows as long as no join
in it loses a clause that was moved into its right input, and no unique input of a
join drops a row that has a match. Both can fail.
-/
namespace LagoDB.RelationTree

open Iceberg Negotiation ExceptLoop List RelationTreePlanner JoinLevelPredicates Option

variable {σ : Type} {planner p : RelationTreePlanner σ}

/-! ## What a tree keeps -/

/-- What a rebuilt tree is to keep of the join PostgreSQL planned: every clause is
applied once, and the rows are the same for all contents of the base relations. -/
structure KeepsJoin (base : BaseRelations planner) (relation : RelOptInfo) (tree : RelationNode)
    (joins : List RelationTreePlanner.JoinTrace) : Prop where
  appliesOnce : ∀ trace ∈ joins, trace.AppliesOnce planner
  rows : ∀ sem, Agrees planner sem → relation.Consistent planner base sem →
    HasRows planner sem tree (sem.output relation).rows

lemma buildSelectedSubtree_eq_ok {m : Bool} {r : RelOptInfo} {s s' : σ} {t : RelationNode}
    (h : p.buildSelectedSubtree m r s = .ok (t, s')) :
    ∃ js, p.buildTraced m r s = .ok ((t, js), s') := by
  obtain ⟨⟨⟨b, js⟩, a⟩, hb, hp⟩ := bind_eq_ok h
  cases hp
  exact ⟨js, hb⟩

/-- A tree without unique inputs keeps the planned join exactly if at each of its
joins no moved clause is lost. -/
theorem buildSelectedSubtree_keepsJoin_iff (base : BaseRelations planner) {allowMark : Bool}
    {relation : RelOptInfo} {state state' : σ} {tree : RelationNode}
    (hbuild : planner.buildSelectedSubtree allowMark relation state = .ok (tree, state')) :
    ∃ joins, planner.buildTraced allowMark relation state = .ok ((tree, joins), state') ∧
      ((∀ trace ∈ joins, trace.uniqueInput = false) →
        (KeepsJoin base relation tree joins ↔ ∀ trace ∈ joins, trace.Recovers)) := by
  obtain ⟨joins, htr⟩ := buildSelectedSubtree_eq_ok hbuild
  obtain ⟨hw, hro⟩ := buildTraced_rebuilt base allowMark relation _ _ _ htr
  refine ⟨joins, htr, fun hu => ?_⟩
  constructor
  · intro hk trace ht
    exact (RelationTreePlanner.JoinTrace.appliesOnce_iff (hw trace ht)).mp (hk.appliesOnce trace ht)
  · intro hr
    refine ⟨fun trace ht => ?_, fun sem ha hc => ?_⟩
    · exact (RelationTreePlanner.JoinTrace.appliesOnce_iff (hw trace ht)).mpr (hr trace ht)
    · have htre := hro sem _ ha ⟨rfl, hc⟩ hr
      have hd (trace) (ht : trace ∈ joins) : trace.DropsUnmatched sem :=
        htre.whole trace ht (hu trace ht)
      exact fun plan hp => ((htre.rows plan hp).mpr hd).1 plan hp

/-- A tree without moved clauses, and every input of its joins, has each row as
often as PostgreSQL has it exactly if unique inputs only drop rows without a match. -/
theorem buildSelectedSubtree_multiplicity_iff (base : BaseRelations planner) {allowMark : Bool}
    {relation : RelOptInfo} {state state' : σ} {tree : RelationNode}
    (hbuild : planner.buildSelectedSubtree allowMark relation state = .ok (tree, state'))
    {sem : PgSemantics} (hagrees : Agrees planner sem)
    (hconsistent : relation.Consistent planner base sem) {plan : DfPlan}
    (hplan : tree.plan planner.isLocal = some plan) :
    ∃ joins, planner.buildTraced allowMark relation state = .ok ((tree, joins), state') ∧
      ((∀ trace ∈ joins, trace.moved = []) →
        ((plan.rows sem.context = (sem.output relation).rows.map (toScan planner.root) ∧
            ∀ trace ∈ joins, trace.KeepsInputs planner sem) ↔
          ∀ trace ∈ joins, trace.DropsUnmatched sem)) := by
  obtain ⟨joins, ht⟩ := buildSelectedSubtree_eq_ok hbuild
  obtain ⟨-, hreb⟩ := buildTraced_rebuilt base allowMark relation _ _ _ ht
  refine ⟨joins, ht, fun hm => ?_⟩
  have hre (trace) (htr : trace ∈ joins) : trace.Recovers := by
    intro r hr
    rw [hm trace htr] at hr
    cases hr
  have hro := (hreb sem _ hagrees ⟨rfl, hconsistent⟩ hre).rows plan hplan
  have hone : HasRows planner sem tree (sem.output relation).rows ↔
      plan.rows sem.context = (sem.output relation).rows.map (toScan planner.root) := by
    constructor
    · exact fun h => h plan hplan
    · intro h o ho
      rw [← some.inj (hplan.symm.trans ho)]
      exact h
  rw [← hone]
  exact hro

/-! ## Integer columns over plain scans -/

def int4 : ExprType := ⟨.int4, -1, 0⟩

def int4Equal : PgComparisonOp := ⟨96, 65, .bool, 0, 0⟩

def equalityFacts : TypeFacts where
  catalog := ⟨fun opno => if opno = 96 then some ⟨.int4, .int4, 65, .equal⟩ else none,
    fun _ => false, fun _ => false, fun _ _ _ => .eq, fun _ _ _ => none, fun _ _ _ => none⟩
  utf8ServerEncoding := true
  decimal128 _ := false
  isBinaryCoercible _ _ := false
  opHashjoinable opno _ := opno = 96

/-- Base relations are read by plain scans, and everything can be lowered. -/
def scanPlanner : RelationTreePlanner Unit where
  root := 0
  facts := equalityFacts
  isLocal _ _ := true
  eqClasses _ := []
  containSubplans _ := false
  lower _ := pure ()
  recordJoinKey _ := pure ()
  buildBaseSubtree scan _ := pure (.scan scan [])

def scanBase : BaseRelations scanPlanner where
  laws context := context.isLocal = scanPlanner.isLocal
  rows context scan := context.contents scan
  built scan allowMark _ := by
    refine Yields.pure ⟨⟨fun emitted => ?_, fun query hquery emitted => ?_⟩,
      fun context plan _ hplan => ?_⟩
    · rw [RelationNode.emits, decide_eq_true_iff, eq_comm]
    · rw [← some.inj hquery, QueryNode.columns, List.mem_singleton]
    · rw [← some.inj hplan, DfPlan.rows]

def int4Column (rti attno : ℤ) : PgExpr := .var rti attno int4

def equates (serial rti attno otherRti otherAttno : ℤ) : JoinRestriction where
  rinfoSerial := serial
  clause := .op int4Equal [int4Column rti attno, int4Column otherRti otherAttno]
  pseudoconstant := false
  isPushedDown := true
  requiredRelids := {rti, otherRti}
  canJoin := true
  hashjoinoperator := 96

/-- Equality of data, whatever the operator. -/
def equalityBackend : Backend where
  catalog := equalityFacts.catalog
  nextChar _ := none
  operator _ args :=
    match args with
    | [some a, some b] => .ofTruth (some (a == b))
    | _ => none
  arrayOperator _ _ _ _ := none
  function _ _ := none
  rowNullTest test value := .ofTruth (some (value.isNone == (test == .isNull)))
  other _ _ _ _ := none

variable (contents : ScanId → Multiset (ℤ → PgValue))

def equalityContext : QueryContext :=
  ⟨equalityBackend, ⟨fun _ _ => none, fun _ _ => none⟩, fun _ _ => true, contents⟩

/-- PostgreSQL over such contents, given the outputs of relations and paths. -/
def equalitySemantics
    (output : RelOptInfo → Output) (input : InputPath → Multiset (Row ℤ)) : PgSemantics where
  context := equalityContext contents
  truth restriction row := (equalityContext contents).clauseTruth 0 row restriction.clause
  output := output
  input := input

variable (cs : ScanId → Multiset (ℤ → PgValue)) (out : RelOptInfo → Output)
  (i : InputPath → Multiset (Row ℤ))

lemma equalitySemantics_agrees : Agrees scanPlanner (equalitySemantics cs out i) := by
  refine ⟨rfl, fun key _ a b => ?_⟩
  cases a with
  | none => cases b <;> rfl
  | some a =>
    cases b with
    | none => rfl
    | some b => simp [equalitySemantics, equalityContext, equalityBackend, BEq.comm]

lemma inspect_int4Column {r a : ℤ} {c : ScanColumn}
    (h : scanPlanner.inspectJoinColumn 0 (int4Column r a) = some c) :
    c = ⟨⟨0, r⟩, a, int4, int4⟩ := by
  have hc : scanPlanner.inspectJoinColumn 0 (int4Column r a) =
      if 0 < a then some ⟨⟨0, r⟩, a, int4, int4⟩ else none := by
    simp [inspectJoinColumn, int4Column, PgExpr.withoutRelabels, PgExpr.typeMetadata, scanPlanner]
  rw [hc] at h
  split_ifs at h
  exact (some.inj h).symm

lemma lower_equates {s r attno o a : ℤ} {key : JoinKey}
    (h : scanPlanner.lowerRestrictinfoJoinKey (equates s r attno o a) = some key) :
    key = ⟨⟨⟨0, r⟩, attno, int4, int4⟩, ⟨⟨0, o⟩, a, int4, int4⟩, int4Equal⟩ := by
  replace h : scanPlanner.lowerJoinKey 0
      (.op int4Equal [int4Column r attno, int4Column o a]) = some key := h
  obtain ⟨l, hl, h⟩ := bind_eq_some_iff.mp h
  obtain ⟨right, hr, h⟩ := bind_eq_some_iff.mp h
  split_ifs at h
  obtain ⟨rfl, -⟩ := tryNew_eq_some h
  rw [inspect_int4Column hl, inspect_int4Column hr]

lemma truth_equates (s r attno o a : ℤ) (row : Row ℤ) :
    (equalitySemantics cs out i).truth (equates s r attno o a) row =
      (equalityBackend.operator int4Equal [row r attno, row o a]).truth := by
  have hc (r attno : ℤ) : (if r = 0 then row 0 attno else row r attno) = row r attno := by
    split_ifs with hz
    · rw [hz]
    · rfl
  rw [← hc r attno, ← hc o a]
  rfl

variable {out : RelOptInfo → Output}

/-- An inner join of the sample planner checks each of its clauses as it is written. -/
lemma plannedJoin_equates {cs : ScanId → Multiset (ℤ → PgValue)}
    {i : InputPath → Multiset (Row ℤ)} {rs : Finset ℤ}
    {j : Output} {ss : List JoinRestriction} {outer inner : InputPath}
    (ho : outer.Yields (out outer.parent) (i outer))
    (hir : inner.Yields (out inner.parent) (i inner))
    (hro : j.rows = pathRows (equalitySemantics cs out i).truth rs .inner
      ss inner.moved (i outer) (i inner))
    (hv : j.visible = (out outer.parent).visible ∪ (out inner.parent).visible)
    (hd : Disjoint (out outer.parent).visible (out inner.parent).visible)
    (hou : outer.moved = [] ∧ outer.ppiClauses = [])
    (hc : inner.ppiClauses = if inner.parent.isBase then inner.moved else [])
    (hs : ((ss ++ inner.moved).map JoinRestriction.rinfoSerial).Nodup)
    (he : ∀ s ∈ ss ++ inner.moved, ∃ serial t attno o a, s = equates serial t attno o a) :
    PlannedJoin scanPlanner (equalitySemantics cs out i) rs j .nestLoop .inner ss outer inner where
  outerYields := ho
  innerYields := hir
  rows := hro
  uniqueInner _ := rfl
  visible := hv
  disjoint := hd
  outerMoved := hou
  innerMoved _ := ⟨rfl, .inl rfl⟩
  ppiClauses := hc
  movedBelow _ _ := rfl
  serials s hr other hoth hser := by
    rw [inj_on_of_nodup_map hs hr hoth hser]
    exact ⟨rfl, fun _ => rfl⟩
  evaluates _ _ _ _ := rfl
  equivalent s hr key hk first second hf hse _ _ l _ r _ := by
    obtain ⟨serial, t, attno, o, a, rfl⟩ := he s hr
    rcases hf with rfl | ⟨m, hm, -⟩
    · rcases hse with rfl | ⟨m, hm, -⟩
      · rw [lower_equates hk, truth_equates]
        rfl
      · cases hm
    · cases hm

/-! ### A lost clause -/

def intTuple (values : List ℤ) : ℤ → PgValue := fun attno =>
  (values[attno.toNat - 1]?).map fun value => .scalar (.integral value)

def freePath : PathCost := ⟨0, 0, 0⟩

def baseInput (rti : ℤ) : InputPath := .mk (.base rti) none [] none

/-- Relations 1 and 2 joined on their first columns. -/
def firstPair : RelOptInfo :=
  .join {1, 2} ∅ [.join .nestLoop freePath .inner none [equates 1 1 1 2 1] (baseInput 1)
    (baseInput 2)]

/-- Relation 3, looked up by a column of relation 1. -/
def lookupInput : InputPath :=
  .mk (.base 3) (some ⟨{1}, [equates 3 1 2 3 1]⟩) [equates 3 1 2 3 1] none

/-- Another clause joins relation 3 to relation 2. -/
def lookedUpJoin : RelOptInfo :=
  .join {1, 2, 3} ∅ [.join .nestLoop freePath .inner none [equates 2 2 2 3 2]
    (.mk firstPair none [] none) lookupInput]

/-- Relation 3 has no row with relation 1's second column. -/
def lookedUpContents (scan : ScanId) : Multiset (ℤ → PgValue) :=
  if scan.rti = 1 then {intTuple [0, 7]}
  else if scan.rti = 2 then {intTuple [0, 5]}
  else if scan.rti = 3 then {intTuple [8, 5]}
  else 0

def scannedOutput (rti : ℤ) : Output where
  visible := {rti}
  rows := (contents ⟨0, rti⟩).map (relationRow rti)
  supported row hrow other hother attno := by
    obtain ⟨tuple, -, rfl⟩ := Multiset.mem_map.mp hrow
    rw [Finset.mem_singleton] at hother
    simp [relationRow, hother]

def firstPairOutput : Output where
  visible := {1, 2}
  rows := {Row.merge (relationRow 1 (intTuple [0, 7])) (relationRow 2 (intTuple [0, 5]))}
  supported row hrow other hother attno := by
    obtain rfl := Multiset.mem_singleton.mp hrow
    simp only [Finset.mem_insert, Finset.mem_singleton, not_or] at hother
    simp [Row.merge, relationRow, hother.1, hother.2]

def wholeInput (output : RelOptInfo → Output) (input : InputPath) : Multiset (Row ℤ) :=
  (output input.parent).rows

def lookedUpOutput : RelOptInfo → Output
  | .base rti => scannedOutput lookedUpContents rti
  | .join relids _ _ => if relids = {1, 2} then firstPairOutput else ⟨relids, 0, by simp⟩
  | .other => ⟨∅, 0, by simp⟩

def lookedUpSemantics : PgSemantics :=
  equalitySemantics lookedUpContents lookedUpOutput (wholeInput lookedUpOutput)

lemma scanned_consistent {r : ℤ} (ho : out (.base r) = scannedOutput cs r) :
    (RelOptInfo.base r).Consistent scanPlanner scanBase (equalitySemantics cs out i) := by
  have hs : (equalitySemantics cs out i).output (.base r) = scannedOutput cs r := ho
  rw [RelOptInfo.Consistent, hs]
  exact ⟨rfl, rfl, rfl⟩

lemma firstPair_consistent : firstPair.Consistent scanPlanner scanBase lookedUpSemantics := by
  refine ⟨fun _ => ⟨?_, scanned_consistent _ _ rfl, scanned_consistent _ _ rfl⟩, trivial⟩
  refine plannedJoin_equates rfl rfl rfl rfl (by decide) ⟨rfl, rfl⟩ rfl (by decide) fun r hr => ?_
  exact ⟨1, 1, 1, 2, 1, mem_singleton.mp hr⟩

lemma lookedUpJoin_consistent : lookedUpJoin.Consistent scanPlanner scanBase lookedUpSemantics := by
  have hp := firstPair_consistent
  refine ⟨fun _ => ⟨?_, hp, scanned_consistent _ _ rfl⟩, trivial⟩
  refine plannedJoin_equates rfl rfl rfl rfl (by decide) ⟨rfl, rfl⟩ rfl (by decide) fun r hr => ?_
  rcases mem_cons.mp hr with rfl | hm
  · exact ⟨2, 2, 2, 3, 2, rfl⟩
  · exact ⟨3, 1, 2, 3, 1, mem_singleton.mp hm⟩

def int4Key (rti attno otherRti otherAttno : ℤ) : JoinKey :=
  ⟨⟨⟨0, rti⟩, attno, int4, int4⟩, ⟨⟨0, otherRti⟩, otherAttno, int4, int4⟩, int4Equal⟩

def keyedTrace (relids : Finset ℤ) (left right : RelationNode) (restriction : JoinRestriction)
    (key : JoinKey) (leftInput rightInput : InputPath) : RelationTreePlanner.JoinTrace :=
  ⟨⟨relids, left, right, .inner⟩, [restriction], rightInput.ppiClauses, leftInput, rightInput,
    new.addKey restriction key, new.addKey restriction key⟩

def firstPairTrace : RelationTreePlanner.JoinTrace :=
  keyedTrace {1, 2} (.scan ⟨0, 1⟩ []) (.scan ⟨0, 2⟩ []) (equates 1 1 1 2 1) (int4Key 1 1 2 1)
    (baseInput 1) (baseInput 2)

def firstPairTree : RelationNode :=
  levelNode firstPairTrace.scope firstPairTrace.predicates

def lookedUpTrace : RelationTreePlanner.JoinTrace :=
  keyedTrace {1, 2, 3} firstPairTree (.scan ⟨0, 3⟩ []) (equates 2 2 2 3 2) (int4Key 2 2 3 2)
    (.mk firstPair none [] none) lookupInput

def lookedUpTree : RelationNode :=
  levelNode lookedUpTrace.scope lookedUpTrace.predicates

def lookedUpPlan : DfPlan :=
  .joinOn .inner (.joinOn .inner (.scan ⟨0, 1⟩) (.scan ⟨0, 2⟩) [.keyEq (int4Key 1 1 2 1)])
    (.scan ⟨0, 3⟩) [.keyEq (int4Key 2 2 3 2)]

/-- The clause that relation 3 is looked up by is gone from the tree, which has a
row that PostgreSQL's join does not have. -/
theorem lookedUpJoin_loses_clause :
    scanPlanner.buildSelectedSubtree false lookedUpJoin () = .ok (lookedUpTree, ()) ∧
      ¬ KeepsJoin scanBase lookedUpJoin lookedUpTree [firstPairTrace, lookedUpTrace] ∧
      ∃ sem, Agrees scanPlanner sem ∧ lookedUpJoin.Consistent scanPlanner scanBase sem ∧
        lookedUpTree.plan scanPlanner.isLocal = some lookedUpPlan ∧
          (sem.output lookedUpJoin).rows.card = 0 ∧ (lookedUpPlan.rows sem.context).card = 1 := by
  refine ⟨rfl, fun hk => ?_, lookedUpSemantics, equalitySemantics_agrees _ _ _,
    lookedUpJoin_consistent, rfl, rfl, rfl⟩
  have hc := (hk.appliesOnce lookedUpTrace (by simp)).complete (equates 3 1 2 3 1)
    (mem_append_right _ (mem_singleton.mpr rfl))
  revert hc
  decide

/-- The look-up from relation 1 alone, where no other clause joins the two. -/
def lookupPair : RelOptInfo :=
  .join {1, 3} ∅ [.join .nestLoop freePath .inner none [] (baseInput 1) lookupInput]

def lookupPairTrace : RelationTreePlanner.JoinTrace :=
  ⟨⟨{1, 3}, .scan ⟨0, 1⟩ [], .scan ⟨0, 3⟩ [], .inner⟩, [], lookupInput.ppiClauses, baseInput 1,
    lookupInput, .new, new.addKey (equates 3 1 2 3 1) (int4Key 1 2 3 1)⟩

def lookupPairTree : RelationNode :=
  levelNode lookupPairTrace.scope lookupPairTrace.predicates

lemma lookupPair_consistent : lookupPair.Consistent scanPlanner scanBase lookedUpSemantics := by
  refine ⟨fun _ => ⟨?_, scanned_consistent _ _ rfl, scanned_consistent _ _ rfl⟩, trivial⟩
  refine plannedJoin_equates rfl rfl rfl rfl (by decide) ⟨rfl, rfl⟩ rfl (by decide) fun r hr => ?_
  exact ⟨3, 1, 2, 3, 1, mem_singleton.mp hr⟩

/-- Without another key the clause that was moved into the look-up is a key of the tree. -/
theorem lookupPair_keepsJoin :
    scanPlanner.buildSelectedSubtree false lookupPair () = .ok (lookupPairTree, ()) ∧
      lookupPairTrace.moved = [equates 3 1 2 3 1] ∧
      KeepsJoin scanBase lookupPair lookupPairTree [lookupPairTrace] ∧
      lookupPair.Consistent scanPlanner scanBase lookedUpSemantics := by
  have hb : scanPlanner.buildSelectedSubtree false lookupPair () = .ok (lookupPairTree, ()) := rfl
  have ht : scanPlanner.buildTraced false lookupPair () =
      .ok ((lookupPairTree, [lookupPairTrace]), ()) := rfl
  obtain ⟨joins, hj, hiff⟩ := buildSelectedSubtree_keepsJoin_iff scanBase hb
  rw [ht] at hj
  obtain rfl : [lookupPairTrace] = joins := by simpa using hj
  refine ⟨hb, rfl, (hiff ?_).mpr ?_, lookupPair_consistent⟩
  · rw [forall_mem_singleton]
    rfl
  · rw [forall_mem_singleton, RelationTreePlanner.JoinTrace.Recovers]
    decide

/-! ### A lost UniquePath -/

/-- Relation 2, made unique on its first column. -/
def uniqueSecond : InputPath := .mk (.base 2) none [] (some [(2, 1)])

/-- A semijoin of relations 1 and 2, run as an inner join. -/
def uniqueJoin : RelOptInfo :=
  .join {1, 2} ∅ [.join .nestLoop freePath .inner none [equates 1 1 1 2 1] (baseInput 1)
    uniqueSecond]

/-- One row in relation 1, and copies of its match in relation 2. -/
def copiesContents (copies : ℕ) (scan : ScanId) : Multiset (ℤ → PgValue) :=
  if scan.rti = 1 then {intTuple [0]}
  else if scan.rti = 2 then Multiset.replicate copies (intTuple [0])
  else 0

def uniqueOutput (copies : ℕ) : RelOptInfo → Output
  | .base rti => scannedOutput (copiesContents copies) rti
  | .join _ _ _ =>
    { visible := {1, 2}
      rows := {Row.merge (relationRow 1 (intTuple [0])) (relationRow 2 (intTuple [0]))}
      supported := fun row hrow other hother attno => by
        obtain rfl := Multiset.mem_singleton.mp hrow
        simp only [Finset.mem_insert, Finset.mem_singleton, not_or] at hother
        simp [Row.merge, relationRow, hother.1, hother.2] }
  | .other => ⟨∅, 0, by simp⟩

/-- A unique path keeps one of the copies. -/
def uniqueSemantics (copies : ℕ) : PgSemantics :=
  equalitySemantics (copiesContents copies) (uniqueOutput copies) fun input =>
    if input.uniqueOn.isSome then {relationRow 2 (intTuple [0])}
    else (uniqueOutput copies input.parent).rows

lemma uniqueJoin_consistent {cs : ℕ} (hu : uniqueSecond.Yields (scannedOutput (copiesContents cs) 2)
      {relationRow 2 (intTuple [0])}) :
    uniqueJoin.Consistent scanPlanner scanBase (uniqueSemantics cs) := by
  refine ⟨fun _ => ⟨?_, scanned_consistent _ _ rfl, scanned_consistent _ _ rfl⟩, trivial⟩
  have hd : Disjoint ({1} : Finset ℤ) {2} := by decide
  refine plannedJoin_equates rfl hu rfl rfl hd ⟨rfl, rfl⟩ rfl (by decide) fun r hr => ?_
  exact ⟨1, 1, 1, 2, 1, mem_singleton.mp hr⟩

def uniquePlan : DfPlan :=
  .joinOn .inner (.scan ⟨0, 1⟩) (.scan ⟨0, 2⟩) [.keyEq (int4Key 1 1 2 1)]

def uniqueTrace : RelationTreePlanner.JoinTrace :=
  keyedTrace {1, 2} (.scan ⟨0, 1⟩ []) (.scan ⟨0, 2⟩ []) (equates 1 1 1 2 1) (int4Key 1 1 2 1)
    (baseInput 1) uniqueSecond

/-- The tree has a row of the semijoin once for each of its matches. -/
theorem uniqueJoin_multiplies_rows :
    scanPlanner.buildTraced false uniqueJoin () = .ok ((firstPairTree, [uniqueTrace]), ()) ∧
      Agrees scanPlanner (uniqueSemantics 2) ∧
      uniqueJoin.Consistent scanPlanner scanBase (uniqueSemantics 2) ∧
      firstPairTree.plan scanPlanner.isLocal = some uniquePlan ∧
      ((uniqueSemantics 2).output uniqueJoin).rows.card = 1 ∧
      (uniquePlan.rows (uniqueSemantics 2).context).card = 2 := by
  refine ⟨rfl, equalitySemantics_agrees _ _ _, uniqueJoin_consistent ?_, rfl, rfl, rfl⟩
  have hc : relationRow 2 (intTuple [0]) ∈ (scannedOutput (copiesContents 2) 2).rows :=
    Multiset.mem_map_of_mem _ (Multiset.mem_replicate.mpr ⟨two_ne_zero, rfl⟩)
  exact ⟨Multiset.singleton_le.mpr hc, by decide⟩

/-- With a single match the unique input is the whole one. -/
theorem uniqueJoin_keeps_single :
    uniquePlan.rows (uniqueSemantics 1).context =
      ((uniqueSemantics 1).output uniqueJoin).rows.map (toScan 0) := by
  have hb : scanPlanner.buildSelectedSubtree false uniqueJoin () = .ok (firstPairTree, ()) := rfl
  have ht : scanPlanner.buildTraced false uniqueJoin () =
      .ok ((firstPairTree, [uniqueTrace]), ()) := rfl
  have hc : uniqueJoin.Consistent scanPlanner scanBase (uniqueSemantics 1) :=
    uniqueJoin_consistent ⟨le_rfl, by decide⟩
  have hp : firstPairTree.plan scanPlanner.isLocal = some uniquePlan := rfl
  obtain ⟨joins, hj, hiff⟩ := buildSelectedSubtree_multiplicity_iff scanBase hb
    (equalitySemantics_agrees _ _ _) hc hp
  rw [ht] at hj
  obtain rfl : [uniqueTrace] = joins := by simpa using hj
  refine ((hiff ?_).mpr ?_).1
  · rw [forall_mem_singleton]
    rfl
  · rw [forall_mem_singleton]
    exact dropsUnmatched_of_whole rfl rfl

end LagoDB.RelationTree
