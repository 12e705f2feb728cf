import LagoDB.AggregateRows

/-!
# Offloaded GROUP BY

The outputs of an aggregate plan have the values PostgreSQL computes for the
expressions they stand for, group by group. The groups are the same as well, except
that a query with GROUP BY whose clauses were all dropped still yields a row on an
empty input.
-/
namespace LagoDB.Aggregate

open Grouping List OutputExpr Fragment AggregatePlanner

variable {σ C F V R : Type}

/-! ## Expressions -/

section Eval

variable (apply : F → List V → V) (l : C → V)

mutual

lemma Node.eval_scalar {A : Type} (f g : A → V) : ∀ n : Node C A F, n.aggrefs = [] →
    n.eval apply l f = n.eval apply l g
  | .column c, _ => by rw [Node.eval, Node.eval]
  | .aggref a, h => by cases h
  | .call kind args, h => by
    rw [Node.eval, Node.eval, evalAll_scalar f g args h]

lemma Node.evalAll_scalar {A : Type} (f g : A → V) : ∀ args : List (Node C A F),
    aggrefsAll args = [] → evalAll apply l f args = evalAll apply l g args
  | [], _ => by rw [evalAll, evalAll]
  | arg :: rest, h => by
    rw [aggrefsAll, append_eq_nil_iff] at h
    rw [evalAll, evalAll, eval_scalar f g arg h.1, evalAll_scalar f g rest h.2]

end

variable [DecidableEq C] [DecidableEq F]

lemma resolveOutput_mem {t : OutputCatalog C F} {x : Upper C F} {id : ℕ}
    (h : resolveOutput t x = some id) : (x, id) ∈ t := by
  obtain ⟨e, hf, rfl⟩ := Option.map_eq_some_iff.mp h
  have he := List.find?_some hf
  rw [decide_eq_true_iff] at he
  rw [← he]
  exact mem_of_find?_eq_some hf

mutual

variable {t : OutputCatalog C F} {row : ℕ → V}

lemma lowerOutput_eval (n : V) (g : Aggref C F → V) (hro : ∀ e ∈ t, row e.2 = e.1.eval apply l g) :
    ∀ (node : Upper C F) (lowered : OutputExpr C F), lowerOutput t node = some lowered →
      lowered.validate = true → lowered.eval apply n row = node.eval apply l g
  | .column c, lowered, h, hv => by
    cases h
    cases hr : resolveOutput t (.column c) with
    | none =>
      rw [hr] at hv
      cases hv
    | some id => exact hro _ (resolveOutput_mem hr)
  | .aggref a, lowered, h, hv => by
    obtain ⟨id, hr, rfl⟩ := Option.map_eq_some_iff.mp h
    exact hro _ (resolveOutput_mem hr)
  | .call kind args, lowered, h, hv => by
    rw [lowerOutput] at h
    split at h
    next id hr =>
      cases h
      exact hro _ (resolveOutput_mem hr)
    next =>
      obtain ⟨la, ha, rfl⟩ := Option.map_eq_some_iff.mp h
      rw [OutputExpr.eval, Node.eval, lowerOutputs_eval n g hro args la ha hv]

lemma lowerOutputs_eval (n : V) (a : Aggref C F → V) (hr : ∀ e ∈ t, row e.2 = e.1.eval apply l a) :
    ∀ (args : List (Upper C F)) (lowered : List (OutputExpr C F)),
      lowerOutputs t args = some lowered → validateAll lowered = true →
        evalAll apply n row lowered = Node.evalAll apply l a args
  | [], lowered, h, _ => by
    cases h
    rw [evalAll, Node.evalAll]
  | arg :: rest, lowered, h, hv => by
    obtain ⟨f, hf, h⟩ := Option.bind_eq_some_iff.mp h
    obtain ⟨o, ho, h⟩ := Option.bind_eq_some_iff.mp h
    cases h
    rw [validateAll, Bool.and_eq_true] at hv
    rw [evalAll, Node.evalAll, lowerOutput_eval n a hr arg f hf
      hv.1, lowerOutputs_eval n a hr rest o ho hv.2]

end

end Eval

/-! ## Outputs -/

lemma find_output {α : Type} {es : List (ℕ × α)} (h : (es.map Prod.fst).Nodup)
    {e : ℕ × α} (hm : e ∈ es) : (es.find? fun o => o.1 = e.1) = some e := by
  induction es with
  | nil => cases hm
  | cons f r ih =>
    rw [map_cons, nodup_cons] at h
    rcases mem_cons.mp hm with rfl | hr
    · simp
    · have hne : f.1 ≠ e.1 := fun heq => h.1 (heq ▸ mem_map_of_mem hr)
      rw [List.find?_cons_of_neg (by simpa using hne)]
      exact ih h.2 hr

variable [DecidableEq C] [DecidableEq F] {planner pl : AggregatePlanner σ C F}
  {engine m : Engine C F V R} {root : PlannerInfo C F} {fragment frag : Fragment C F}
  {calls : AggregatePlanner.Calls C F}

lemma AggregatePlanner.Planned.outputs_nodup (h : pl.Planned root frag calls) :
    (frag.groups.map GroupExpr.output ++ calls.map fun e => e.2.output).Nodup := by
  have hr : frag.groups.map GroupExpr.output ++ calls.map (fun e => e.2.output) =
      List.range (frag.groups.length + calls.length) := by
    rw [h.groupsFor.outputs, h.callsFor.outputs, range_add]
  rw [hr]
  exact nodup_range

lemma AggregatePlanner.Planned.groups_eq_nil_iff (h : pl.Planned root frag calls) :
    frag.groups = [] ↔ root.processedGroupClause = [] := by
  rw [← length_eq_zero_iff, ← h.groupsFor.expressions.length_eq, length_eq_zero_iff]

variable {ms : Multiset R}

omit [DecidableEq C] [DecidableEq F] in
lemma groupValue_of_scalar (m : Engine C F V R) {e : Upper C F}
    (h : e.aggrefs = []) (hm : ∃ r, r ∈ ms) : ∃ r ∈ ms, m.groupValue ms e = m.rowValue e r := by
  refine ⟨hm.choose, hm.choose_spec, ?_⟩
  have hc : m.groupColumn ms = fun c => m.column c hm.choose := by
    ext c
    rw [Engine.groupColumn, dif_pos hm]
  rw [Engine.groupValue, hc]
  exact Node.eval_scalar _ _ _ _ e h

/-- Rows of one key, and what is known about it. -/
structure IsGroup (engine : Engine C F V R) (fragment : Fragment C F) (key : List V)
    (members : Multiset R) : Prop where
  width : key.length = fragment.groups.length
  same : ∀ r ∈ members, fragment.groupKey engine r = key
  inhabited : fragment.groups ≠ [] → ∃ r, r ∈ members

variable {key : List V}

section

variable (hpl : pl.Planned root frag calls)

include hpl

section

variable (hco : pl.Computes m) (hg : IsGroup m frag key ms)

include hco hg

/-- Each output of a group has the value of the expression it stands for. -/
lemma outputRow_eq {e : Upper C F × ℕ} (he : e ∈ outputCatalog frag.groups calls) :
    frag.outputRow m key ms e.2 = m.groupValue ms e.1 := by
  have hk : ((frag.groups.map GroupExpr.output).zip key ++ frag.aggregates.map fun c =>
        (c.output, m.callValue c ms)).map Prod.fst =
      frag.groups.map GroupExpr.output ++ calls.map fun e => e.2.output := by
    rw [map_append, map_fst_zip (by simp [hg.width]), hpl.aggregates]
    simp
  have hn := hk ▸ hpl.outputs_nodup
  have hf {v : V} (hm : (e.2, v) ∈ (frag.groups.map GroupExpr.output).zip key ++
        frag.aggregates.map fun c => (c.output, m.callValue c ms)) :
      frag.outputRow m key ms e.2 = v := by
    rw [outputRow, find_output hn hm]
    rfl
  rcases mem_append.mp he with hi | hi
  · obtain ⟨g, hm, rfl⟩ := mem_map.mp hi
    obtain ⟨r, hr, hv⟩ := groupValue_of_scalar m
      (hpl.groupsFor.scalar g hm) (hg.inhabited (ne_nil_of_mem hm))
    refine hf (mem_append_left _ ?_)
    rw [hv, ← hg.same r hr, groupKey, zip_map']
    exact mem_map.mpr ⟨g, hm, rfl⟩
  · obtain ⟨c, hm, rfl⟩ := mem_map.mp hi
    refine hf (mem_append_right _ ?_)
    have hv : m.groupValue ms (.aggref c.1) = m.callValue c.2 ms :=
      (hco _ _ (hpl.callsFor.built c hm) ms).symm
    rw [hv, hpl.aggregates, map_map]
    exact mem_map.mpr ⟨c, hm, rfl⟩

lemma keeps_eq :
    frag.keeps m (frag.outputRow m key ms) = root.parse.satisfiesHaving m ms := by
  have hh := hpl.having
  rw [keeps, Query.satisfiesHaving]
  cases hq : root.parse.havingQual with
  | none =>
    rw [hq] at hh
    have hn : frag.having = none := hh
    rw [hn]
    rfl
  | some havingQual =>
    rw [hq] at hh
    obtain ⟨l, hs, hv, hl⟩ := hh
    rw [hs, Option.all_some]
    congr 1
    exact lowerOutput_eval _ _ _ _ (fun e he => outputRow_eq hpl hco hg he) havingQual l hl hv

lemma projectRow_eq :
    frag.projectRow (frag.outputRow m key ms) = frag.scanTargetExprs.map (m.groupValue ms) := by
  have hv : List.Forall₂ (fun (p : ProjectExpr) scan =>
      frag.outputRow m key ms p.expression = m.groupValue ms scan)
        frag.project frag.scanTargetExprs :=
    hpl.projects.imp fun _ _ hm => outputRow_eq hpl hco hg hm
  exact forall₂_eq_eq_eq ▸ forall₂_map_left_iff.mpr (forall₂_map_right_iff.mpr hv)

end

end

/-! ## Groups -/

lemma forall₂_exists_left {α β : Type} {Rel : α → β → Prop} {left : List α} {right : List β}
    (h : List.Forall₂ Rel left right) {b : β} (hb : b ∈ right) : ∃ a ∈ left, Rel a b := by
  induction h with
  | nil => cases hb
  | cons hre _ ih =>
    rcases mem_cons.mp hb with rfl | hr
    · exact ⟨_, mem_cons_self, hre⟩
    · obtain ⟨a, ha, hab⟩ := ih hr
      exact ⟨a, mem_cons_of_mem _ ha, hab⟩

variable {rows : Multiset R}

/-- The clauses that were kept tell the same rows apart as GROUP BY does. -/
lemma groupKey_iff (hpl : pl.Planned root frag calls)
    (hp : Processed m root rows) {a b : R} (ha : a ∈ rows) (hb : b ∈ rows) :
    root.parse.groupKey m a = root.parse.groupKey m b ↔
      frag.groupKey m a = frag.groupKey m b := by
  rw [Query.groupKey, Query.groupKey, groupKey, groupKey, map_inj_left, map_inj_left]
  have hgroup {c : SortGroupClause} (hc : c ∈ root.processedGroupClause) :
      ∃ g ∈ frag.groups, root.parse.groupExpr c = some g.expression :=
    forall₂_exists_left hpl.groupsFor.expressions.flip hc
  constructor
  · intro hcl g hm
    obtain ⟨c, hc, he⟩ := forall₂_exists_left hpl.groupsFor.expressions hm
    have hv := hcl c (hp.kept c hc)
    rw [he] at hv
    exact Option.some.inj hv
  · intro hgr c hc
    by_cases hk : c ∈ root.processedGroupClause
    · obtain ⟨g, hm, he⟩ := hgroup hk
      rw [he, Option.map_some, Option.map_some, hgr g hm]
    · cases he : root.parse.groupExpr c with
      | none => rfl
      | some e =>
        rw [Option.map_some, Option.map_some]
        rcases hp.dropped c hc hk e he with
          hco | ⟨other, ho, equal, hequ, hs⟩
        · rw [hco a ha b hb]
        · obtain ⟨g, hm, hg⟩ := hgroup ho
          obtain rfl : equal = g.expression := Option.some.inj (hequ.symm.trans hg)
          rw [hs a ha, hs b hb, hgr g hm]

variable [DecidableEq V]

def Fragment.groupRows (engine : Engine C F V R) (fragment : Fragment C F) (rows : Multiset R) :
    Multiset (Multiset R) :=
  if fragment.groups.isEmpty then {rows} else groupsBy (fragment.groupKey engine) rows

/-- The rows of the plan are the plan's groups that satisfy HAVING, each with the
values of what the positions are taken for. -/
lemma rows_eq_groupRows (hpl : pl.Planned root frag calls)
    (hco : pl.Computes m) (rows : Multiset R) :
    frag.rows m rows = ((frag.groupRows m rows).filter fun ms =>
        root.parse.satisfiesHaving m ms = true).map fun ms =>
          frag.scanTargetExprs.map (m.groupValue ms) := by
  rw [Fragment.rows, Fragment.aggregateRows, Fragment.groupRows]
  by_cases hn : frag.groups = []
  · have hgroup : IsGroup m frag [] rows :=
      ⟨by simp [hn], fun r _ => by rw [groupKey, hn, map_nil], fun hs => absurd hn hs⟩
    have hke := keeps_eq hpl hco hgroup
    have hp := projectRow_eq hpl hco hgroup
    rw [if_pos (isEmpty_iff.mpr hn), if_pos (isEmpty_iff.mpr hn),
      Multiset.filter_singleton, Multiset.filter_singleton, hke]
    split_ifs
    · rw [Multiset.map_singleton, Multiset.map_singleton, hp]
    · rfl
  · have he : ¬frag.groups.isEmpty = true := fun h => hn (isEmpty_iff.mp h)
    rw [if_neg he, if_neg he, groupsBy, Multiset.filter_map, Multiset.filter_map,
      Multiset.map_map, Multiset.map_map]
    have hgroup (key : List V) (hk : key ∈ (rows.map (frag.groupKey m)).dedup) :
        IsGroup m frag key (rows.filter fun r => frag.groupKey m r = key) := by
      obtain ⟨a, ha, rfl⟩ := Multiset.mem_map.mp (Multiset.mem_dedup.mp hk)
      exact ⟨by rw [groupKey, length_map], fun r hr => (Multiset.mem_filter.mp hr).2,
        fun _ => ⟨a, Multiset.mem_filter.mpr ⟨ha, rfl⟩⟩⟩
    have hf := Multiset.filter_congr fun key hk =>
      iff_of_eq (congrArg (· = true) (keeps_eq hpl hco (hgroup key hk)))
    refine Multiset.map_congr hf fun key hk => ?_
    exact projectRow_eq hpl hco (hgroup key (Multiset.mem_of_mem_filter hk))

/-- The groups of the plan are those of the query, unless GROUP BY was dropped as a
whole and there is no row to group. -/
lemma groupRows_eq (hpl : pl.Planned root frag calls) (hp : Processed m root rows)
    (h : root.parse.groupClause = [] ∨ root.processedGroupClause ≠ [] ∨ rows ≠ 0) :
    frag.groupRows m rows = root.parse.groupRows m rows := by
  rw [groupRows, Query.groupRows]
  by_cases hk : root.processedGroupClause = []
  · have hg : frag.groups = [] := hpl.groups_eq_nil_iff.mpr hk
    rw [if_pos (isEmpty_iff.mpr hg)]
    by_cases hc : root.parse.groupClause = []
    · rw [if_pos (isEmpty_iff.mpr hc)]
    · have hr : rows ≠ 0 := by tauto
      rw [if_neg fun he => hc (isEmpty_iff.mp he)]
      refine (groupsBy_of_const hr fun a ha b hb => ?_).symm
      rw [groupKey_iff hpl hp ha hb, groupKey, groupKey, hg]
      rfl
  · obtain ⟨c, hc⟩ := exists_mem_of_ne_nil _ hk
    have hg : frag.groups ≠ [] := mt hpl.groups_eq_nil_iff.mp hk
    have hpa : root.parse.groupClause ≠ [] := ne_nil_of_mem (hp.kept c hc)
    rw [if_neg fun he => hg (isEmpty_iff.mp he), if_neg fun he => hpa (isEmpty_iff.mp he)]
    exact groupsBy_congr fun a ha b hb => (groupKey_iff hpl hp ha hb).symm

/-! ## What offloaded grouping keeps -/

/-- The plan yields one row for each group of the query that satisfies HAVING; each
position has the value it is taken for, which is what its target names; and equal
aggregates are computed once. -/
structure KeepsGroups (planner : AggregatePlanner σ C F) (engine : Engine C F V R)
    (root : PlannerInfo C F) (fragment : Fragment C F) (rows : Multiset R) : Prop where
  rows : fragment.rows engine rows = root.parse.rows engine fragment.scanTargetExprs rows
  names : List.Forall₂ AggregatePlanner.Names root.pathTarget fragment.scanTargetExprs
  once : ∃ aggregates, aggregates.Nodup ∧
    List.Forall₂ planner.BuiltFrom aggregates fragment.aggregates

/-- An installed plan keeps the grouping of the query exactly if not every clause of
its GROUP BY was dropped, or there are input rows, or an empty group would not pass
HAVING. -/
theorem install_keepsGroups_iff (hcomputes : planner.Computes engine) {shape : QueryShape}
    {containSubplans : Upper C F → Bool} {state state' : σ}
    (hinstall : planner.install shape containSubplans root state = .ok (fragment, state'))
    {rows : Multiset R} (hprocessed : Processed engine root rows) :
    KeepsGroups planner engine root fragment rows ↔
      root.parse.groupClause = [] ∨ root.processedGroupClause ≠ [] ∨ rows ≠ 0 ∨
        root.parse.satisfiesHaving engine (0 : Multiset R) = false := by
  have hb : planner.build root state = .ok (fragment, state') := by
    rw [install] at hinstall
    split_ifs at hinstall
    · cases hinstall
    · exact hinstall
  obtain ⟨calls, hplanned⟩ := build_planned root _ _ _ hb
  have hr := rows_eq_groupRows hplanned hcomputes rows
  constructor
  · intro hke
    by_contra hl
    simp only [not_or, not_not, Bool.not_eq_false] at hl
    obtain ⟨hc, hk, rfl, hh⟩ := hl
    have hg : fragment.groups = [] := hplanned.groups_eq_nil_iff.mpr hk
    have hs := hr.symm.trans hke.rows
    rw [groupRows, if_pos (isEmpty_iff.mpr hg), Query.rows, Query.groupRows,
      if_neg fun he => hc (isEmpty_iff.mp he), groupsBy_zero,
      Multiset.filter_singleton, if_pos hh] at hs
    simp at hs
  · intro h
    refine ⟨?_, hplanned.names, calls.map Prod.fst, hplanned.callsFor.nodup, ?_⟩
    · by_cases hg : root.parse.groupClause = [] ∨ root.processedGroupClause ≠ [] ∨ rows ≠ 0
      · rw [hr, groupRows_eq hplanned hprocessed hg, Query.rows]
      · have hh : root.parse.satisfiesHaving engine (0 : Multiset R) = false := by tauto
        simp only [not_or, not_not] at hg
        obtain ⟨hc, hk, rfl⟩ := hg
        have hn : fragment.groups = [] := hplanned.groups_eq_nil_iff.mpr hk
        rw [hr, groupRows, if_pos (isEmpty_iff.mpr hn), Query.rows, Query.groupRows,
          if_neg fun he => hc (isEmpty_iff.mp he), Multiset.filter_singleton, hh]
        rfl
    · rw [hplanned.aggregates]
      have hbu : List.Forall₂ (fun a (b : Aggref C F × AggCall C F) =>
          planner.BuiltFrom a.1 b.2) calls calls :=
        forall₂_same.mpr hplanned.callsFor.built
      exact forall₂_map_left_iff.mpr (forall₂_map_right_iff.mpr hbu)

/-! ### Counting by one column -/

/-- An integer column is a group key, and `count(*)` is supported. -/
def countPlanner : AggregatePlanner Unit ℕ ℕ where
  facts := ⟨⟨fun _ => none, fun _ => false, fun _ => false, fun _ _ _ => .eq, fun _ _ _ => none,
    fun _ _ _ => none⟩, true, fun _ => false, fun _ _ => false, fun _ _ => false⟩
  equalityOperator _ := some 96
  exprType _ := ⟨.int4, -1, 0⟩
  isDirectColumn _ := true
  isFloat _ := false
  stringAggFunction := 3538
  stringAggDelimiter _ := none
  classify _ _ := some .count
  supportsArgument _ _ := true
  sortDirection _ := none
  supportsOrder _ := false
  lower _ := pure ()

def countStar : Aggref ℕ ℕ where
  aggfnoid := 2803
  aggtype := ⟨.int8, -1, 0⟩
  aggdirectargs := []
  args := []
  aggorder := []
  aggdistinct := []
  aggfilter := none
  aggstar := true
  aggvariadic := false
  agglevelsup := 0
  aggsplit := .simple

def countEngine : Engine ℕ ℕ (Option ℤ) (ℕ → Option ℤ) where
  apply _ _ := none
  null := none
  isTrue value := value == some 1
  column c r := r c
  aggregateValue _ members := some members.card
  callValue _ members := some members.card

lemma countPlanner_computes : countPlanner.Computes countEngine := fun _ _ _ _ => rfl

def countShape : QueryShape :=
  ⟨true, false, false, false, false, false, false, false, false, false, true, true, false, false,
    false, false⟩

def columnClause : SortGroupClause := ⟨1, 96, 97, false, true⟩

/-- `SELECT a, count(*) ... GROUP BY a`, or the count alone. -/
def countQuery (processed : List SortGroupClause) (targets : List (Upper ℕ ℕ)) :
    PlannerInfo ℕ ℕ :=
  ⟨⟨[⟨.column 0, 1, false⟩, ⟨.aggref countStar, 0, false⟩], [columnClause], none⟩, processed,
    targets⟩

def countCall (output : ℕ) : AggCall ℕ ℕ :=
  ⟨2803, .count, .none, false, [], none, ⟨.int8, -1, 0⟩, output⟩

/-- The plan of a query whose only group column is known to be constant. -/
def ungroupedFragment : Fragment ℕ ℕ :=
  ⟨[], [countCall 0], none, [⟨0, ⟨.int4, -1, 0⟩, 0, false⟩], [.aggref countStar]⟩

/-- `SELECT count(*) ... WHERE a = 5 GROUP BY a` has no row without input, but its plan
has one. -/
theorem dropped_groupClause_adds_row :
    countPlanner.install countShape (fun _ => false) (countQuery [] [.aggref countStar]) () =
        .ok (ungroupedFragment, ()) ∧ Processed countEngine (countQuery [] [.aggref countStar]) 0 ∧
      ungroupedFragment.rows countEngine 0 = {[some 0]} ∧
      (countQuery [] [.aggref countStar]).parse.rows countEngine [.aggref countStar] 0 = 0 ∧
      ¬KeepsGroups countPlanner countEngine (countQuery [] [.aggref countStar]) ungroupedFragment
        0 := by
  have hp : ungroupedFragment.rows countEngine 0 = {[some 0]} := rfl
  have hq : (countQuery [] [.aggref countStar]).parse.rows countEngine [.aggref countStar] 0 =
      0 := by
    simp [Query.rows, Query.groupRows, countQuery, groupsBy_zero]
  refine ⟨rfl, ⟨by simp [countQuery], by simp⟩, hp, hq, fun hk => ?_⟩
  have hs := hk.rows
  exact absurd (hs.trans hq) (Multiset.singleton_ne_zero _)

def groupedFragment : Fragment ℕ ℕ :=
  ⟨[⟨.column 0, ⟨.int4, -1, 0⟩, 0⟩], [countCall 1], none,
    [⟨0, ⟨.int4, -1, 0⟩, 0, true⟩, ⟨1, ⟨.int4, -1, 0⟩, 1, false⟩],
    [.column 0, .aggref countStar]⟩

theorem groupedFragment_keepsGroups :
    countPlanner.install countShape (fun _ => false)
        (countQuery [columnClause] [.column 0, .aggref countStar]) () = .ok (groupedFragment, ()) ∧
    groupedFragment.rows countEngine {fun _ => some 3, fun _ => some 3, fun _ => none} =
      {[some 3, some 2], [none, some 1]} ∧ KeepsGroups countPlanner countEngine
      (countQuery [columnClause] [.column 0, .aggref countStar]) groupedFragment
      {fun _ => some 3, fun _ => some 3, fun _ => none} := by
  have hi : countPlanner.install countShape (fun _ => false)
      (countQuery [columnClause] [.column 0, .aggref countStar]) () =
        .ok (groupedFragment, ()) := rfl
  refine ⟨hi, rfl, ?_⟩
  refine (install_keepsGroups_iff countPlanner_computes hi ⟨?_, ?_⟩).mpr (.inr (.inl ?_))
  · exact fun c hc => hc
  · exact fun c hc hd => absurd hc hd
  · exact cons_ne_nil _ _

end LagoDB.Aggregate
