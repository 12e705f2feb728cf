import LagoDB.AggregatePlan
import LagoDB.Grouping

/-!
# The rows of an aggregate plan

DataFusion computes one row for each distinct key, or a single row if there are no
keys. PostgreSQL computes one row for each group of the query's own GROUP BY, or a
single row if there is none. What the plan's outputs stand for is computed on the
same rows in both.
-/
namespace LagoDB.Aggregate

open RelationTree ExceptLoop Grouping List Yields List.Subset

variable {σ C F V R : Type} [DecidableEq C] [DecidableEq F]

/-! ## DataFusion -/

/-- What values are: PostgreSQL's aggregates, and DataFusion's. -/
structure Engine (C F V R : Type) where
  apply : F → List V → V
  null : V
  isTrue : V → Bool
  column : C → R → V
  aggregateValue : Aggref C F → Multiset R → V
  callValue : AggCall C F → Multiset R → V

/-- The value of an expression without aggregates on one input row. -/
def Engine.rowValue (engine : Engine C F V R) (expression : Upper C F) (r : R) : V :=
  expression.eval engine.apply (fun c => engine.column c r) fun _ => engine.null

namespace Fragment

variable (engine : Engine C F V R) (fragment : Fragment C F)

def groupKey (r : R) : List V :=
  fragment.groups.map fun group => engine.rowValue group.expression r

def outputRow (key : List V) (members : Multiset R) (id : ℕ) : V :=
  (((fragment.groups.map GroupExpr.output).zip key ++
    fragment.aggregates.map fun call => (call.output, engine.callValue call members)).find?
      fun entry => entry.1 = id).elim engine.null Prod.snd

/-- One row for each distinct key; without keys there is a row even if there is no
input. -/
def aggregateRows [DecidableEq V] (rows : Multiset R) : Multiset (ℕ → V) :=
  if fragment.groups.isEmpty then {fragment.outputRow engine [] rows}
  else (rows.map (fragment.groupKey engine)).dedup.map fun key =>
    fragment.outputRow engine key (rows.filter fun r => fragment.groupKey engine r = key)

def keeps (row : ℕ → V) : Bool :=
  fragment.having.all fun having => engine.isTrue (having.eval engine.apply engine.null row)

def projectRow (row : ℕ → V) : List V := fragment.project.map fun expression =>
  row expression.expression

def rows [DecidableEq V] (rows : Multiset R) : Multiset (List V) :=
  ((fragment.aggregateRows engine rows).filter fun row => fragment.keeps engine row = true).map
    fragment.projectRow

end Fragment

/-! ## PostgreSQL -/

/-- A column of a group is read from one of its rows. -/
noncomputable def Engine.groupColumn (engine : Engine C F V R) (members : Multiset R) (c : C) : V :=
  open Classical in if h : ∃ r, r ∈ members then engine.column c h.choose else engine.null

noncomputable def Engine.groupValue (engine : Engine C F V R) (members : Multiset R)
    (expression : Upper C F) : V :=
  expression.eval engine.apply (engine.groupColumn members) fun aggregate =>
    engine.aggregateValue aggregate members

namespace Query

variable (parse : Query C F) (engine : Engine C F V R)

def groupExpr (clause : SortGroupClause) : Option (Upper C F) :=
  (sortgrouprefTle clause.tleSortGroupRef parse.targetList).map TargetEntry.expr

def groupKey (r : R) : List (Option V) := parse.groupClause.map fun clause =>
  (parse.groupExpr clause).map fun expression => engine.rowValue expression r

/-- The groups of a query; without GROUP BY there is one even if it is empty. -/
def groupRows [DecidableEq V] (rows : Multiset R) : Multiset (Multiset R) :=
  if parse.groupClause.isEmpty then {rows} else groupsBy (parse.groupKey engine) rows

noncomputable def satisfiesHaving (members : Multiset R) : Bool :=
  parse.havingQual.all fun having => engine.isTrue (engine.groupValue members having)

/-- The groups that satisfy HAVING, as the values of some expressions. -/
noncomputable def rows [DecidableEq V] (targets : List (Upper C F)) (rows : Multiset R) :
    Multiset (List V) :=
  ((parse.groupRows engine rows).filter fun members =>
    parse.satisfiesHaving engine members = true).map fun members =>
      targets.map (engine.groupValue members)

end Query

/-- What PostgreSQL keeps of GROUP BY: it drops an item that is constant on the
input, or equal to one it keeps. -/
structure Processed (engine : Engine C F V R) (root : PlannerInfo C F) (rows : Multiset R) :
    Prop where
  kept : ∀ clause ∈ root.processedGroupClause, clause ∈ root.parse.groupClause
  dropped : ∀ clause ∈ root.parse.groupClause, clause ∉ root.processedGroupClause →
    ∀ expression, root.parse.groupExpr clause = some expression →
      (∀ a ∈ rows, ∀ b ∈ rows, engine.rowValue expression a = engine.rowValue expression b) ∨
        ∃ other ∈ root.processedGroupClause, ∃ equal, root.parse.groupExpr other = some equal ∧
          ∀ a ∈ rows, engine.rowValue expression a = engine.rowValue equal a

/-! ## What planning establishes -/

namespace AggregatePlanner

variable (planner pl : AggregatePlanner σ C F)

def BuiltFrom (aggregate : Aggref C F) (call : AggCall C F) : Prop :=
  ∃ output state state', planner.buildAggregate aggregate output state = .ok (call, state')

/-- DataFusion computes a call as PostgreSQL computes the aggregate it was built for. -/
def Computes (engine : Engine C F V R) : Prop :=
  ∀ aggregate call, planner.BuiltFrom aggregate call →
    ∀ members, engine.callValue call members = engine.aggregateValue aggregate members

/-- The groups of the clauses done so far. -/
structure GroupsFor (parse : Query C F) (done : List SortGroupClause)
    (groups : List (GroupExpr C F)) : Prop where
  expressions : List.Forall₂ (fun clause (group : GroupExpr C F) =>
    parse.groupExpr clause = some group.expression) done groups
  scalar : ∀ group ∈ groups, group.expression.aggrefs = []
  outputs : groups.map GroupExpr.output = List.range groups.length

structure CallsFor (groups : List (GroupExpr C F)) (calls : Calls C F) : Prop where
  built : ∀ entry ∈ calls, planner.BuiltFrom entry.1 entry.2
  nodup : (calls.map Prod.fst).Nodup
  outputs : calls.map (fun entry => entry.2.output) =
    (List.range calls.length).map (groups.length + ·)

/-- What a position of the target list stands for: the target itself, or the only
thing in it, an aggregate. -/
def Names (target scan : Upper C F) : Prop :=
  scan = target ∨ ∃ aggregate, scan = .aggref aggregate ∧ target.pulled = [.aggref aggregate]

structure TargetsFor (groups : List (GroupExpr C F)) (done : List (Upper C F))
    (targets : Targets C F) : Prop where
  calls : planner.CallsFor groups targets.calls
  names : List.Forall₂ Names done targets.scanTargetExprs
  projects : List.Forall₂ (fun (projected : ProjectExpr) scan =>
    (scan, projected.expression) ∈ outputCatalog groups targets.calls) targets.project
      targets.scanTargetExprs

variable {pl} {gs : List (GroupExpr C F)} {calls : Calls C F} {g : Aggref C F}

omit [DecidableEq C] [DecidableEq F] in
lemma tryNew_output {arguments : AggregateArguments C F} {out : ℕ}
    {c : AggCall C F} (h : pl.tryNew g arguments out = some c) : c.output = out := by
  obtain ⟨k, -, h⟩ := Option.bind_eq_some_iff.mp h
  split_ifs at h
  rw [← Option.some.inj h]

omit [DecidableEq C] [DecidableEq F] in
lemma buildAggregate_output (g : Aggref C F) (out : ℕ) :
    Yields (pl.buildAggregate g out) fun c => c.output = out := by
  rw [buildAggregate]
  split_ifs
  · exact decline_yields _
  · refine (any_yields _).bind fun a _ => (any_yields _).bind fun _ _ => ?_
    refine (orDecline_yields _).bind fun c hc => (any_yields _).bind fun ob _ => ?_
    have ho : c.output = out := tryNew_output hc
    exact pure ho

omit [DecidableEq C] [DecidableEq F] in
lemma buildGroup_groupsFor {parse : Query C F} {done : List SortGroupClause}
    (h : GroupsFor parse done gs) (c : SortGroupClause) :
    Yields (pl.buildGroup parse gs c) (GroupsFor parse (done ++ [c])) := by
  refine (orDecline_yields _).bind fun t ht => ?_
  split_ifs with ha
  · exact decline_yields _
  · refine (any_yields _).bind fun _ _ => pure ⟨?_, ?_, ?_⟩
    · refine rel_append h.expressions (.cons ?_ .nil)
      rw [Query.groupExpr, ht]
      rfl
    · rw [forall_mem_append, forall_mem_singleton]
      exact ⟨h.scalar, not_not.mp ha⟩
    · simp [h.outputs, range_succ]
  · exact (any_yields _).bind fun _ _ => decline_yields _

lemma planAggregate_callsFor (h : pl.CallsFor gs calls) (g : Aggref C F) :
    Yields (pl.planAggregate gs calls g) fun p => pl.CallsFor gs p.1 ∧ calls ⊆ p.1 ∧
      (g, p.2) ∈ p.1 := by
  rw [planAggregate]
  split
  next e hf =>
    have he := List.find?_some hf
    rw [decide_eq_true_iff] at he
    refine pure ⟨h, refl _, ?_⟩
    rw [← he]
    exact mem_of_find?_eq_some hf
  next hf =>
    have hn : g ∉ calls.map Prod.fst := by
      rintro hm
      obtain ⟨e, he, rfl⟩ := mem_map.mp hm
      simpa using List.find?_eq_none.mp hf e he
    intro s p s' hp
    obtain ⟨⟨c, a⟩, hc, hpu⟩ := bind_eq_ok hp
    cases hpu
    refine ⟨⟨?_, ?_, ?_⟩, subset_append_left _ _, by simp⟩
    · rw [forall_mem_append, forall_mem_singleton]
      exact ⟨h.built, _, _, _, hc⟩
    · rw [map_append, nodup_append]
      refine ⟨h.nodup, nodup_singleton _, ?_⟩
      rintro o ho _ hs rfl
      rw [mem_singleton.mp hs] at ho
      exact hn ho
    · have hou := buildAggregate_output g _ _ _ _ hc
      simp [h.outputs, hou, range_succ]

omit [DecidableEq C] [DecidableEq F] in
lemma outputCatalog_mono {os : Calls C F} (h : calls ⊆ os) :
    outputCatalog gs calls ⊆ outputCatalog gs os := by
  intro e he
  rcases mem_append.mp he with hg | hc
  · exact mem_append_left _ hg
  · obtain ⟨c, hm, rfl⟩ := mem_map.mp hc
    exact mem_append_right _ (mem_map.mpr ⟨c, h hm, rfl⟩)

omit [DecidableEq C] [DecidableEq F] in
lemma singleAggregateOutput_names {e : Upper C F} (h : singleAggregateOutput e = some g) :
    Names e (.aggref g) := by
  unfold singleAggregateOutput at h
  split at h
  · exact .inl (by rw [Option.some.inj h])
  · split at h
    next hp => exact .inr ⟨g, rfl, by rw [hp, Option.some.inj h]⟩
    next => cases h

section

variable {done : List (Upper C F)} {targets : Targets C F} (h : pl.TargetsFor gs done targets)

include h

omit [DecidableEq C] [DecidableEq F] in
lemma TargetsFor.push {t s : Upper C F} {out : ℕ} (hc : pl.CallsFor gs calls)
    (hsu : targets.calls ⊆ calls) (hn : Names t s) (hs : (s, out) ∈ outputCatalog gs calls) :
    pl.TargetsFor gs (done ++ [t]) (targets.push pl calls out s) := by
  refine ⟨hc, rel_append h.names (.cons hn .nil), ?_⟩
  refine rel_append ?_ (.cons hs .nil)
  exact h.projects.imp fun _ _ hm => outputCatalog_mono hsu hm

lemma planTarget_targetsFor (e : Upper C F) :
    Yields (pl.planTarget gs targets e) (pl.TargetsFor gs (done ++ [e])) := by
  rw [planTarget]
  split
  next g hf =>
    have hg := List.find?_some hf
    rw [decide_eq_true_iff] at hg
    refine pure (h.push h.calls (refl _) (.inl rfl) ?_)
    refine mem_append_left _ (mem_map.mpr ⟨g, mem_of_find?_eq_some hf, ?_⟩)
    rw [hg]
  next =>
    refine (orDecline_yields _).bind fun a ha => ?_
    refine (planAggregate_callsFor h.calls a).bind fun p hp => ?_
    obtain ⟨hc, hs, hm⟩ := hp
    refine pure (h.push hc hs (singleAggregateOutput_names ha) ?_)
    exact mem_append_right _ (mem_map.mpr ⟨_, hm, rfl⟩)

end

/-- The lowered HAVING is one over the outputs there are. -/
def HavingFor (groups : List (GroupExpr C F)) (calls : Calls C F)
    (havingQual : Option (Upper C F)) (having : Option (OutputExpr C F)) : Prop :=
  match havingQual with
  | none => having = none
  | some havingQual => ∃ lowered, having = some lowered ∧ lowered.validate = true ∧
      lowerOutput (outputCatalog groups calls) havingQual = some lowered

lemma buildHaving_callsFor (h : pl.CallsFor gs calls) (hq : Option (Upper C F)) :
    Yields (pl.buildHaving gs calls hq) fun b => pl.CallsFor gs b.1 ∧ calls ⊆ b.1 ∧
      HavingFor gs b.1 hq b.2 := by
  cases hq with
  | none => exact pure ⟨h, refl _, rfl⟩
  | some hq =>
    have hlo : Yields (hq.pulled.foldlM (pl.planHavingAggregate gs) calls)
        fun n => pl.CallsFor gs n ∧ calls ⊆ n := by
      refine foldlM (I := fun _ n => pl.CallsFor gs n ∧ calls ⊆ n)
        (fun node _ _ n hn => ?_) [] calls ⟨h, refl _⟩
      cases node with
      | column | call => exact pure hn
      | aggref a =>
        refine (planAggregate_callsFor hn.1 a).bind fun p hp => ?_
        split_ifs
        · exact pure ⟨hp.1, fun e he => hp.2.1 (hn.2 he)⟩
        · exact decline_yields _
    refine hlo.bind fun n hn => (any_yields _).bind fun _ _ => ?_
    refine (orDecline_yields _).bind fun l hl => ?_
    split_ifs with hv
    · exact pure ⟨hn.1, hn.2, l, rfl, hv, hl⟩
    · exact decline_yields _

structure Planned (planner : AggregatePlanner σ C F) (root : PlannerInfo C F)
    (fragment : Fragment C F) (calls : Calls C F) : Prop where
  groupsFor : GroupsFor root.parse root.processedGroupClause fragment.groups
  callsFor : planner.CallsFor fragment.groups calls
  aggregates : fragment.aggregates = calls.map Prod.snd
  having : HavingFor fragment.groups calls root.parse.havingQual fragment.having
  names : List.Forall₂ Names root.pathTarget fragment.scanTargetExprs
  projects : List.Forall₂ (fun (projected : ProjectExpr) scan =>
    (scan, projected.expression) ∈ outputCatalog fragment.groups calls) fragment.project
      fragment.scanTargetExprs

lemma build_planned (r : PlannerInfo C F) :
    Yields (pl.build r) fun f => ∃ calls, pl.Planned r f calls := by
  have hg : Yields (r.processedGroupClause.foldlM (pl.buildGroup r.parse) [])
      (GroupsFor r.parse r.processedGroupClause) :=
    foldlM (I := GroupsFor r.parse)
      (fun c _ done gs h => buildGroup_groupsFor h c) [] [] ⟨.nil, by simp, rfl⟩
  refine hg.bind fun gs hg => ?_
  have ht : Yields (r.pathTarget.foldlM (pl.planTarget gs) ⟨[], [], []⟩)
      (pl.TargetsFor gs r.pathTarget) :=
    foldlM (I := pl.TargetsFor gs)
      (fun e _ done targets h => planTarget_targetsFor h e) [] ⟨[], [], []⟩
      ⟨⟨by simp, by simp, rfl⟩, .nil, .nil⟩
  refine ht.bind fun targets ht => ?_
  refine (buildHaving_callsFor ht.calls _).bind fun having hh => ?_
  obtain ⟨hc, hs, hh⟩ := hh
  split_ifs
  · exact decline_yields _
  · refine pure ⟨having.1, hg, hc, rfl, hh, ht.names, ?_⟩
    exact ht.projects.imp fun _ _ hm => outputCatalog_mono hs hm

end AggregatePlanner

end LagoDB.Aggregate
