import LagoDB.RelationTree

/-!
# What becomes of the clauses of a join

Each clause a join looks at is taken once, by its serial number, and gets one
role: a join key, a match filter, or a filter above the join. Every clause of the
join has a role exactly when the clauses moved into its right input are among
those it looked at.
-/
namespace LagoDB.RelationTree

open ExceptLoop List Yields

variable {σ : Type}

/-! ## Roles -/

inductive JoinRole where
  | key (key : JoinKey)
  | onFilter
  | postFilter

def JoinRole.isMatch : JoinRole → Bool
  | .key _ | .onFilter => true
  | .postFilter => false

namespace RelationTreePlanner

variable (planner : RelationTreePlanner σ) (scope s : JoinRestrictionScope)
  (restriction : JoinRestriction)

def placement : JoinRestrictionPlacement :=
  restrictionPlacement scope.joinType (restriction.pushedDown scope.relids)

/-- A clause can play a role: only a pushed-down clause of an outer join goes above
the join, and a key stands for the clause. -/
def Plays : JoinRole → Prop
  | .key oriented => placement scope restriction = .onMatch ∧
      ∃ key, planner.lowerRestrictinfoJoinKey restriction = some key ∧
        oriented ∈ planner.orientedKeys scope.left scope.right key
  | .onFilter => placement scope restriction = .onMatch
  | .postFilter => placement scope restriction = .postJoin

def clauseFilters (role : JoinRole → Bool) (roles : List (JoinRestriction × JoinRole)) :
    List ExecutionExpr :=
  (roles.filter fun assigned => role assigned.2).map fun assigned =>
    ⟨planner.root, assigned.1.clause⟩

/-- The predicates of a join are the clauses in their roles. -/
structure Assigned (roles : List (JoinRestriction × JoinRole))
    (predicates : JoinLevelPredicates) : Prop where
  applied : predicates.applied = roles.map fun assigned => assigned.1.rinfoSerial
  nodup : predicates.applied.Nodup
  keys : ∀ key, key ∈ predicates.keys ↔ ∃ restriction, (restriction, .key key) ∈ roles
  onFilters : predicates.onFilters =
    planner.clauseFilters (fun role => match role with | .onFilter => true | _ => false) roles
  postFilters : predicates.postFilters =
    planner.clauseFilters (fun role => match role with | .postFilter => true | _ => false) roles
  plays : ∀ assigned ∈ roles, planner.Plays scope assigned.1 assigned.2

variable {planner s} {roles : List (JoinRestriction × JoinRole)} {ps : JoinLevelPredicates}
  {t : JoinRestriction}

lemma assigned_new : planner.Assigned s [] .new :=
  ⟨rfl, nodup_nil, by simp [JoinLevelPredicates.new], rfl, rfl, by simp⟩

variable {role : JoinRole}

lemma Assigned.plays_snoc (h : planner.Assigned s roles ps) (hp : planner.Plays s t role) :
    ∀ a ∈ roles ++ [(t, role)], planner.Plays s a.1 a.2 := by
  rw [forall_mem_append, forall_mem_singleton]
  exact ⟨h.plays, hp⟩

section Step

variable (h : planner.Assigned s roles ps) (hnew : t.rinfoSerial ∉ ps.applied)

include h hnew

lemma Assigned.serials :
    ps.applied ++ [t.rinfoSerial] = (roles.map fun a => a.1.rinfoSerial) ++ [t.rinfoSerial] ∧
      (ps.applied ++ [t.rinfoSerial]).Nodup := by
  refine ⟨by rw [h.applied], nodup_append.mpr ⟨h.nodup, nodup_singleton _, ?_⟩⟩
  rintro s hs _ ho rfl
  rw [mem_singleton.mp ho] at hs
  exact hnew hs

lemma Assigned.addKey {key : JoinKey} (hp : planner.Plays s t (.key key)) :
    planner.Assigned s (roles ++ [(t, .key key)]) (ps.addKey t key) := by
  obtain ⟨hs, hn⟩ := h.serials hnew
  refine ⟨by simpa [JoinLevelPredicates.addKey] using hs, hn, fun o => ?_, ?_, ?_, ?_⟩
  · have hm : o ∈ (ps.addKey t key).keys ↔ o ∈ ps.keys ∨ o = key := by
      rw [JoinLevelPredicates.addKey]
      simp only
      split_ifs with hc
      · have hk : key ∈ ps.keys := contains_iff_mem.mp hc
        exact ⟨.inl, fun hor => hor.elim id fun heq => heq ▸ hk⟩
      · simp
    rw [hm, h.keys o]
    constructor
    · rintro (⟨l, ho⟩ | rfl)
      · exact ⟨l, mem_append_left _ ho⟩
      · exact ⟨t, by simp⟩
    · rintro ⟨l, ho⟩
      rcases mem_append.mp ho with ho | ho
      · exact .inl ⟨l, ho⟩
      · simp only [mem_singleton, Prod.mk.injEq, JoinRole.key.injEq] at ho
        exact .inr ho.2
  · simp [JoinLevelPredicates.addKey, h.onFilters, clauseFilters]
  · simp [JoinLevelPredicates.addKey, h.postFilters, clauseFilters]
  · exact h.plays_snoc hp

lemma Assigned.addOnFilter (hp : planner.Plays s t .onFilter) :
    planner.Assigned s (roles ++ [(t, .onFilter)]) (ps.addOnFilter t ⟨planner.root, t.clause⟩) := by
  obtain ⟨hs, hn⟩ := h.serials hnew
  refine ⟨by simpa [JoinLevelPredicates.addOnFilter] using hs, hn, fun o => ?_, ?_, ?_, ?_⟩
  · simpa [JoinLevelPredicates.addOnFilter] using h.keys o
  · simp [JoinLevelPredicates.addOnFilter, h.onFilters, clauseFilters]
  · simp [JoinLevelPredicates.addOnFilter, h.postFilters, clauseFilters]
  · exact h.plays_snoc hp

lemma Assigned.addPostFilter (hp : planner.Plays s t .postFilter) :
    planner.Assigned s (roles ++ [(t, .postFilter)])
      (ps.addPostFilter t ⟨planner.root, t.clause⟩) := by
  obtain ⟨hs, hn⟩ := h.serials hnew
  refine ⟨by simpa [JoinLevelPredicates.addPostFilter] using hs, hn, fun o => ?_, ?_, ?_, ?_⟩
  · simpa [JoinLevelPredicates.addPostFilter] using h.keys o
  · simp [JoinLevelPredicates.addPostFilter, h.onFilters, clauseFilters]
  · simp [JoinLevelPredicates.addPostFilter, h.postFilters, clauseFilters]
  · exact h.plays_snoc hp

end Step

/-! ## Classifying -/

lemma recordFirst_mem (ks : List JoinKey) :
    Yields (planner.recordFirst ks) fun r => ∀ key ∈ r, key ∈ ks := by
  induction ks with
  | nil => exact pure (by simp)
  | cons key rest ih =>
    refine (any_yields (attempt (planner.recordJoinKey key))).bind fun r _ => ?_
    cases r with
    | some _ => exact pure (by simp)
    | none => exact ih.mono fun r hr o ho => mem_cons_of_mem key (hr o ho)

lemma joinKeyOf_plays (hp : placement s t = .onMatch) :
    Yields (planner.joinKeyOf s t) fun r => ∀ o ∈ r, planner.Plays s t (.key o) := by
  rw [joinKeyOf]
  split
  next key hk =>
    refine (recordFirst_mem _).mono fun r hr o ho => ?_
    exact ⟨hp, key, hk, hr o ho⟩
  next => exact pure (by simp)

/-- The predicates after some clauses: each has a role, by its serial number. -/
def Classified (planner : RelationTreePlanner σ) (scope : JoinRestrictionScope)
    (done : List JoinRestriction) (predicates : JoinLevelPredicates) : Prop :=
  (∃ roles, planner.Assigned scope roles predicates ∧ ∀ assigned ∈ roles, assigned.1 ∈ done) ∧
    ∀ restriction ∈ done, restriction.rinfoSerial ∈ predicates.applied

lemma classified_new : planner.Classified s [] .new := ⟨⟨[], assigned_new, by simp⟩, by simp⟩

variable {done : List JoinRestriction}

lemma Classified.snoc {next : JoinLevelPredicates} (hd : ∀ t ∈ done, t.rinfoSerial ∈ ps.applied)
    (hr : ∀ a ∈ roles, a.1 ∈ done) (hap : next.applied = ps.applied ++ [t.rinfoSerial])
    (h : planner.Assigned s (roles ++ [(t, role)]) next) :
    planner.Classified s (done ++ [t]) next := by
  refine ⟨⟨_, h, ?_⟩, ?_⟩
  · rw [forall_mem_append]
    exact ⟨fun a ha => mem_append_left _ (hr a ha), by simp⟩
  · rw [forall_mem_append, hap]
    exact ⟨fun o ho => mem_append_left _ (hd o ho), by simp⟩

section

variable (h : planner.Classified s done ps)

include h

lemma classifyPlaced_classified (hnew : t.rinfoSerial ∉ ps.applied) :
    Yields (planner.classifyPlaced s ps t (placement s t))
      (planner.Classified s (done ++ [t])) := by
  obtain ⟨⟨roles, ha, hr⟩, hd⟩ := h
  have hl := any_yields (planner.lower ⟨planner.root, t.clause⟩)
  cases hp : placement s t with
  | onMatch =>
    refine (joinKeyOf_plays hp).bind fun r hre => ?_
    cases r with
    | some key => exact pure (.snoc hd hr rfl (ha.addKey hnew (hre key rfl)))
    | none => exact hl.bind fun _ _ => pure (.snoc hd hr rfl (ha.addOnFilter hnew hp))
  | postJoin => exact hl.bind fun _ _ => pure (.snoc hd hr rfl (ha.addPostFilter hnew hp))

lemma classifyRestriction_classified :
    Yields (planner.classifyRestriction s ps t) (planner.Classified s (done ++ [t])) := by
  rw [classifyRestriction]
  split_ifs with ha hs
  · obtain ⟨⟨roles, hass, hr⟩, hd⟩ := h
    have hm : t.rinfoSerial ∈ ps.applied := contains_iff_mem.mp ha
    refine pure ⟨⟨roles, hass, fun a hi => mem_append_left _ (hr a hi)⟩, ?_⟩
    rw [forall_mem_append, forall_mem_singleton]
    exact ⟨hd, hm⟩
  · exact decline_yields _
  · exact classifyPlaced_classified h fun hm => ha (contains_iff_mem.mpr hm)

lemma classifyJoinRestrictions_classified (rs : List JoinRestriction) :
    Yields (planner.classifyJoinRestrictions s rs ps) (planner.Classified s (done ++ rs)) :=
  foldlM (fun _ _ _ _ hd => classifyRestriction_classified hd) done ps h

lemma Classified.mem_applied {s : ℤ} : s ∈ ps.applied ↔ ∃ t ∈ done, t.rinfoSerial = s := by
  obtain ⟨⟨roles, ha, hro⟩, hd⟩ := h
  constructor
  · intro hs
    rw [ha.applied, mem_map] at hs
    obtain ⟨a, hm, rfl⟩ := hs
    exact ⟨a.1, hro a hm, rfl⟩
  · rintro ⟨t, hr, rfl⟩
    exact hd t hr

end

end RelationTreePlanner

/-! ## The clauses of one join -/

namespace RelationTreePlanner.JoinTrace

variable {p : RelationTreePlanner σ}

/-- Every clause moved into the right input is also one of the join's own clauses,
or is read back from the parameterization because there is no key yet. -/
def Recovers (trace : JoinTrace) : Prop :=
  ∀ restriction ∈ trace.moved,
    (∃ own ∈ trace.restrictions, own.rinfoSerial = restriction.rinfoSerial) ∨
      trace.first.keys = [] ∧
        ∃ own ∈ trace.parameterized, own.rinfoSerial = restriction.rinfoSerial

def examined (trace : JoinTrace) : List JoinRestriction :=
  trace.restrictions ++ if trace.first.keys.isEmpty then trace.parameterized else []

/-- A clause that is checked above its join rather than for a match. -/
def checkedAbove (trace : JoinTrace) (restriction : JoinRestriction) : Prop :=
  restriction.pushedDown trace.scope.relids = true ∧
    trace.scope.joinType ∈ [JoinType.left, .right, .full, .leftAnti]

/-- Every clause PostgreSQL applies at the join is applied once, in a role it can
play. -/
structure AppliesOnce (planner : RelationTreePlanner σ) (trace : JoinTrace) : Prop where
  once : trace.predicates.applied.Nodup
  complete : ∀ restriction ∈ trace.restrictions ++ trace.moved,
    restriction.rinfoSerial ∈ trace.predicates.applied
  roles : ∃ roles, planner.Assigned trace.scope roles trace.predicates ∧
    ∀ assigned ∈ roles, assigned.1 ∈ trace.restrictions ++ trace.parameterized ∧
      (assigned.2.isMatch = false ↔ trace.checkedAbove assigned.1)

/-- What is known of a join without a look at its clauses. -/
structure WellBuilt (planner : RelationTreePlanner σ) (trace : JoinTrace) : Prop where
  classified : planner.Classified trace.scope trace.examined trace.predicates
  ne_mark : trace.scope.joinType ≠ .leftMark

variable {trace : JoinTrace}

lemma checkedAbove_iff (h : trace.scope.joinType ≠ .leftMark)
    {t : JoinRestriction} {role : JoinRole} (hp : p.Plays trace.scope t role) :
    role.isMatch = false ↔ trace.checkedAbove t := by
  have hpo : placement trace.scope t = .postJoin ↔ trace.checkedAbove t := by
    rw [placement, restrictionPlacement, checkedAbove]
    cases ht : trace.scope.joinType with
    | leftMark => exact absurd ht h
    | _ => simp
  rw [← hpo]
  cases role with
  | key o => simp [JoinRole.isMatch, hp.1]
  | onFilter => simp [JoinRole.isMatch, show placement trace.scope t = .onMatch from hp]
  | postFilter => simp [JoinRole.isMatch, show placement trace.scope t = .postJoin from hp]

lemma recovers_iff (trace : JoinTrace) : trace.Recovers ↔ ∀ t ∈ trace.moved,
      ∃ own ∈ trace.examined, own.rinfoSerial = t.rinfoSerial := by
  refine forall₂_congr fun t _ => ?_
  by_cases hk : trace.first.keys = []
  · simp [examined, hk, or_and_right, exists_or]
  · simp [examined, hk]

lemma appliesOnce_iff (h : trace.WellBuilt p) : trace.AppliesOnce p ↔ trace.Recovers := by
  rw [recovers_iff]
  constructor
  · intro hap t hm
    exact h.classified.mem_applied.mp (hap.complete t (mem_append_right _ hm))
  · intro hre
    have he : trace.examined ⊆ trace.restrictions ++ trace.parameterized := by
      rw [examined]
      split_ifs
      · exact List.Subset.refl _
      · simp
    obtain ⟨⟨roles, ha, hro⟩, hd⟩ := h.classified
    refine ⟨ha.nodup, ?_, roles, ha, fun a hme => ⟨he (hro a hme),
        checkedAbove_iff h.ne_mark (ha.plays a hme)⟩⟩
    rw [forall_mem_append]
    constructor
    · exact fun t hr => hd t (mem_append_left _ hr)
    · intro t hm
      obtain ⟨own, ho, hs⟩ := hre t hm
      exact hs ▸ hd own ho

end RelationTreePlanner.JoinTrace

namespace RelationTreePlanner

variable {p : RelationTreePlanner σ} {s : JoinRestrictionScope}

structure BuiltLevel (planner : RelationTreePlanner σ) (scope : JoinRestrictionScope)
    (restrictions parameterized : List JoinRestriction) (leftInput rightInput : InputPath)
    (level : RelationNode × JoinTrace) : Prop where
  node : level.1 = levelNode scope level.2.predicates
  traced : level.2.scope = scope
  restrictions : level.2.restrictions = restrictions
  parameterized : level.2.parameterized = parameterized
  leftInput : level.2.leftInput = leftInput
  rightInput : level.2.rightInput = rightInput
  classified : planner.Classified scope level.2.examined level.2.predicates

lemma buildJoinLevel_built (rs a : List JoinRestriction) (l r : InputPath) :
    Yields (p.buildJoinLevel s rs a l r) (p.BuiltLevel s rs a l r) := by
  refine (classifyJoinRestrictions_classified classified_new rs).bind ?_
  intro f hf
  have hs : Yields (p.classifyParameterized s a f) (p.Classified s
        (rs ++ if f.keys.isEmpty then a else [])) := by
    rw [classifyParameterized]
    split_ifs
    · exact classifyJoinRestrictions_classified hf a
    · rw [append_nil]
      exact pure hf
  refine hs.bind fun ps hp => ?_
  split_ifs
  · exact decline_yields _
  · exact pure ⟨rfl, rfl, rfl, rfl, rfl, rfl, hp⟩

end RelationTreePlanner

end LagoDB.RelationTree
