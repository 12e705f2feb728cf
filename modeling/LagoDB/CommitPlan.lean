import LagoDB.ReadCaches
import Mathlib.Data.List.Dedup

/-!
# Commit plans

At commit the log of a table becomes a plan. Data staged before the last
TRUNCATE never reaches the catalog: only its created files are collected for
removal. The truncation of the base table itself rides on the first data epoch
that survives, or on a trailing action of its own.
-/
namespace LagoDB.ActionLog

open ExceptLoop List Option

variable {T : Provider}

/-! ## Planning -/

inductive EffectiveCommitAction (T : Provider) where
  | schema (update : T.SchemaUpdate)
  | properties (update : T.PropertyUpdate)
  | data (epoch : TxDataEpoch T) (truncateBase : Bool)
  | truncateOnly

structure TxTableCommitPlan (T : Provider) where
  actions : List (EffectiveCommitAction T)
  exclusiveAction : Option T.Exclusive
  truncateGuard : Option T.Guard
  canceledCreatedPaths : List String

/-- The last TRUNCATE with its index, the first action having index `start`. -/
def lastTruncate (start : ℕ) (actions : List (TxTableAction T)) :
    Option (ℕ × TxTruncateAction T) :=
  (actions.zipIdx start).reverse.findSome? fun (action, index) =>
    match action with
    | .truncate truncate => some (index, truncate)
    | _ => none

/-- The loop variables of `commit_plan`. -/
structure Planning (T : Provider) where
  effectiveActions : List (EffectiveCommitAction T)
  paths : List String
  pendingTruncate : Bool

variable (lastTruncateIndex : Option ℕ)

/-- Paths of an epoch that the last TRUNCATE makes unreachable. -/
def canceledPaths (index : ℕ) (epoch : TxDataEpoch T) :
    Except IcebergError (List String) :=
  match lastTruncateIndex with
  | none => .ok []
  | some truncateIndex => do
    let delta ← epoch.delta.1
    pure (if index < truncateIndex then T.createdFilePaths delta
      else T.canceledCreatedFilePaths delta)

/-- One data epoch: skipped before the last TRUNCATE and when it is empty. -/
def planEpoch (index : ℕ) (epoch : TxDataEpoch T)
    (state : Planning T) : Except IcebergError (Planning T) := do
  let canceled ← canceledPaths lastTruncateIndex index epoch
  let state := { state with paths := state.paths ++ canceled }
  if lastTruncateIndex.any (index < ·) || epoch.isEmpty then pure state
  else
    pure { state with
      effectiveActions := state.effectiveActions ++ [.data epoch state.pendingTruncate]
      pendingTruncate := false }

def planActions (lastTruncateIndex : Option ℕ) :
    ℕ → List (TxTableAction T) → Planning T → Except IcebergError (Planning T)
  | _, [], state => .ok state
  | index, .schema update :: rest, state =>
    planActions lastTruncateIndex (index + 1) rest
      { state with effectiveActions := state.effectiveActions ++ [.schema update] }
  | index, .properties update :: rest, state =>
    planActions lastTruncateIndex (index + 1) rest
      { state with effectiveActions := state.effectiveActions ++ [.properties update] }
  | index, .data epoch :: rest, state => do
    planActions lastTruncateIndex (index + 1) rest
      (← planEpoch lastTruncateIndex index epoch state)
  | index, .truncate _ :: rest, state => planActions lastTruncateIndex (index + 1) rest state
  | _, .exclusive _ :: _, _ => .error (.invariantViolated T.misplacedInvariant)
  | _, .drop :: _, _ =>
    .error (.invariantViolated "dropped table reached Iceberg commit planning")

/-- A pending truncation that found no epoch becomes an action of its own. -/
def Planning.closed (state : Planning T) : List (EffectiveCommitAction T) :=
  if state.pendingTruncate then state.effectiveActions ++ [.truncateOnly]
  else state.effectiveActions

/-- The epoch caches it fills on the way are the event `warm` of the log. -/
def TxTableActionLog.commitPlan (log : TxTableActionLog T) :
    Except IcebergError (TxTableCommitPlan T) :=
  match log.actions with
  | .exclusive exclusive :: rest =>
    if rest.isEmpty then .ok ⟨[], some exclusive, none, []⟩
    else .error (.invariantViolated T.notExclusiveInvariant)
  | actions => do
    let last := lastTruncate 0 actions
    let state ← planActions (last.map Prod.fst) 0 actions ⟨[], [], last.isSome⟩
    pure ⟨state.closed, none, last.map (·.2.guard), state.paths.dedup.mergeSort (· ≤ ·)⟩

/-! ## The plan without indices -/

def TxTableAction.isTruncate : TxTableAction T → Bool
  | .truncate _ => true
  | _ => false

def TxTableAction.truncateGuard : TxTableAction T → Option T.Guard
  | .truncate action => some action.guard
  | _ => none

/-- What stays of a log: every schema and property action, and the non-empty
epochs that no TRUNCATE follows. -/
def survivors : List (TxTableAction T) → List (TxTableAction T)
  | [] => []
  | .schema update :: rest => .schema update :: survivors rest
  | .properties update :: rest => .properties update :: survivors rest
  | .data epoch :: rest =>
    if rest.any TxTableAction.isTruncate || epoch.isEmpty then survivors rest
    else .data epoch :: survivors rest
  | _ :: rest => survivors rest

/-- The survivors as planned actions. The first epoch takes the pending
truncation, and what is still pending at the end is the second component. -/
def effective : Bool → List (TxTableAction T) → List (EffectiveCommitAction T) × Bool
  | pending, [] => ([], pending)
  | pending, .schema update :: rest =>
    let planned := effective pending rest
    (.schema update :: planned.1, planned.2)
  | pending, .properties update :: rest =>
    let planned := effective pending rest
    (.properties update :: planned.1, planned.2)
  | pending, .data epoch :: rest =>
    if rest.any TxTableAction.isTruncate || epoch.isEmpty then effective pending rest
    else
      let planned := effective false rest
      (.data epoch pending :: planned.1, planned.2)
  | pending, _ :: rest => effective pending rest

/-- `lastTruncateIndex` is the last TRUNCATE as seen from the suffix `actions`
that starts at `index`: in it, or already passed. -/
def SeenFrom (index : ℕ) (actions : List (TxTableAction T)) :
    Prop :=
  match lastTruncate index actions with
  | some (last, _) => lastTruncateIndex = some last
  | none => ∀ last ∈ lastTruncateIndex, last < index

variable (d : ℕ)

lemma lastTruncate_cons (act : TxTableAction T) (rest : List (TxTableAction T)) :
    lastTruncate d (act :: rest) = (lastTruncate (d + 1) rest).or (match act with
          | .truncate truncate => some (d, truncate) | _ => none) := by
  unfold lastTruncate
  rw [zipIdx_cons, reverse_cons, List.findSome?_append, List.findSome?_singleton]

variable {i : ℕ} {actions : List (TxTableAction T)}

lemma lastTruncate_le {l : ℕ} {truncate : TxTruncateAction T}
    (h : lastTruncate i actions = some (l, truncate)) : i ≤ l := by
  obtain ⟨⟨a, p⟩, hm, hs⟩ := exists_of_findSome?_eq_some h
  have hle := (mem_zipIdx (mem_reverse.mp hm)).1
  cases a with
  | truncate o =>
    cases hs
    exact hle
  | _ => cases hs

open TxTableAction

variable (cs : List (TxTableAction T))

lemma lastTruncate_isSome : (lastTruncate d cs).isSome = cs.any isTruncate := by
  induction cs generalizing d with
  | nil => rfl
  | cons a rest ih =>
    rw [lastTruncate_cons, isSome_or, ih (d + 1), Bool.or_comm]
    cases a <;> rfl

lemma lastTruncate_guard :
    (lastTruncate d cs).map (·.2.guard) = (cs.filterMap truncateGuard).getLast? := by
  induction cs generalizing d with
  | nil => rfl
  | cons a rest ih =>
    rw [lastTruncate_cons, map_or, ih (d + 1)]
    cases a with
    | truncate truncate => simp [truncateGuard, List.getLast?_cons]
    | _ => simp [truncateGuard]

variable (cs : List (TxTableAction T))

lemma seenFrom_start : SeenFrom ((lastTruncate 0 cs).map Prod.fst) 0 cs := by
  unfold SeenFrom
  cases h : lastTruncate 0 cs with
  | none => simp
  | some f => rfl

variable {l : Option ℕ} {rest : List (TxTableAction T)}

lemma SeenFrom.tail {act : TxTableAction T} (h : SeenFrom l i (act :: rest)) :
    SeenFrom l (i + 1) rest := by
  unfold SeenFrom at h ⊢
  rw [lastTruncate_cons] at h
  cases hr : lastTruncate (i + 1) rest with
  | some f => simpa [hr] using h
  | none =>
    intro last hl
    rw [hr] at h
    cases act with
    | truncate truncate =>
      have hi : l = some i := h
      rw [hi] at hl
      have := Option.some.inj hl
      omega
    | _ => exact Nat.lt_succ_of_lt (h last hl)

variable {e : TxDataEpoch T}

lemma SeenFrom.before_iff (h : SeenFrom l i (.data e :: rest)) :
    l.any (i < ·) = rest.any isTruncate := by
  rw [← lastTruncate_isSome (i + 1) rest]
  unfold SeenFrom at h
  rw [lastTruncate_cons] at h
  cases hr : lastTruncate (i + 1) rest with
  | some f =>
    obtain ⟨last, t⟩ := f
    have hle := lastTruncate_le hr
    rw [hr] at h
    have hl : l = some last := h
    simp only [hl, any_some, isSome_some, decide_eq_true_eq]
    omega
  | none =>
    rw [hr] at h
    have hb : ∀ last ∈ l, last < i := h
    cases hl : l with
    | none => rfl
    | some last =>
      have := hb last hl
      simp only [any_some, isSome_none, decide_eq_false_iff_not]
      omega

/-! ## The loop -/

lemma planEpoch_ok {s next : Planning T} (h : planEpoch l i e s = .ok next) :
    (l.any (i < ·) || e.isEmpty) = true ∧ next.effectiveActions = s.effectiveActions ∧
        next.pendingTruncate = s.pendingTruncate ∨ (l.any (i < ·) || e.isEmpty) = false ∧
        next.effectiveActions = s.effectiveActions ++ [.data e s.pendingTruncate] ∧
        next.pendingTruncate = false := by
  obtain ⟨c, -, hn⟩ := bind_eq_ok h
  split_ifs at hn with hs
  · cases hn
    exact .inl ⟨hs, rfl, rfl⟩
  · cases hn
    exact .inr ⟨by simpa using hs, rfl, rfl⟩

lemma planActions_ok {s f : Planning T} (hse : SeenFrom l i actions)
    (h : planActions l i actions s = .ok f) :
    f.effectiveActions = s.effectiveActions ++ (effective s.pendingTruncate actions).1 ∧
      f.pendingTruncate = (effective s.pendingTruncate actions).2 := by
  induction actions generalizing i s with
  | nil =>
    cases h
    simp [effective]
  | cons a rest ih =>
    have ht := hse.tail
    cases a with
    | schema | properties =>
      obtain ⟨ha, hp⟩ := ih ht h
      simp [ha, hp, effective]
    | data e =>
      obtain ⟨next, hn, hr⟩ := bind_eq_ok h
      obtain ⟨ha, hp⟩ := ih ht hr
      rw [ha, hp, effective, ← hse.before_iff]
      rcases planEpoch_ok hn with ⟨hsk, hs, hs'⟩ | ⟨hk, hap, hc⟩
      · simp [hsk, hs, hs']
      · simp [hk, hap, hc]
    | truncate truncate => exact ih ht h
    | exclusive | drop => cases h

/-- Planning fails only where an epoch's delta cannot be built. -/
lemma planActions_total (l : Option ℕ) (hp : actions.any isWithdrawal = false)
    (hb : l.isSome = true → ∀ e, TxTableAction.data e ∈ actions → ∃ dl, e.delta.1 = .ok dl) (d : ℕ)
    (s : Planning T) : ∃ f, planActions l d actions s = .ok f := by
  induction actions generalizing d s with
  | nil => exact ⟨s, rfl⟩
  | cons a rest ih =>
    have hbuilt_rest := fun hs e he => hb hs e (mem_cons_of_mem a he)
    have ih := ih (by simpa using (Bool.or_eq_false_iff.mp hp).2) hbuilt_rest
    cases a with
    | schema | properties => exact ih _ _
    | data e =>
      have hc : ∃ ps, canceledPaths l d e = .ok ps := by
        cases l with
        | none => exact ⟨[], rfl⟩
        | some last =>
          obtain ⟨dl, hd⟩ := hb rfl e mem_cons_self
          exact ⟨_, bind_ok hd⟩
      obtain ⟨ps, hpa⟩ := hc
      have he : ∃ next, planEpoch l d e s = .ok next := by
        unfold planEpoch
        rw [bind_ok hpa]
        split_ifs
        · exact ⟨_, rfl⟩
        · exact ⟨_, rfl⟩
      obtain ⟨next, hn⟩ := he
      obtain ⟨f, hf⟩ := ih (d + 1) next
      exact ⟨f, (bind_ok hn).trans hf⟩
    | truncate truncate => exact ih _ _
    | exclusive | drop => simp [isWithdrawal] at hp

/-- The planned actions of a log without a drop or an exclusive action. -/
def plannedActions (pending : Bool) (actions : List (TxTableAction T)) :
    List (EffectiveCommitAction T) :=
  (effective pending actions).1 ++ if (effective pending actions).2 then [.truncateOnly] else []

lemma plannedActions_data (p : Bool) (e : TxDataEpoch T) (rest : List (TxTableAction T)) :
    plannedActions p (.data e :: rest) =
      if rest.any isTruncate || e.isEmpty then plannedActions p rest
      else .data e p :: plannedActions false rest := by
  unfold plannedActions
  rw [effective]
  split <;> rfl

variable {log : TxTableActionLog T}

lemma commitPlan_ordinary (hp : log.actions.any isWithdrawal = false) : log.commitPlan = (do
      let last := lastTruncate 0 log.actions
      let state ← planActions (last.map Prod.fst) 0 log.actions ⟨[], [], last.isSome⟩
      pure ⟨state.closed, none, last.map (·.2.guard), state.paths.dedup.mergeSort (· ≤ ·)⟩) := by
  unfold TxTableActionLog.commitPlan
  split
  next e rest ha => simp [ha, isWithdrawal] at hp
  next => rfl

variable {plan : TxTableCommitPlan T}

lemma commitPlan_ok (hpl : log.actions.any isWithdrawal = false) (h : log.commitPlan = .ok plan) :
    plan.actions = plannedActions (log.actions.any isTruncate) log.actions ∧
      plan.exclusiveAction = none ∧
      plan.truncateGuard = (log.actions.filterMap truncateGuard).getLast? := by
  rw [commitPlan_ordinary hpl] at h
  obtain ⟨s, hs, hpla⟩ := bind_eq_ok h
  obtain ⟨ha, hp⟩ := planActions_ok (seenFrom_start log.actions) hs
  cases hpla
  refine ⟨?_, rfl, lastTruncate_guard 0 log.actions⟩
  rw [lastTruncate_isSome] at ha hp
  simp only [Planning.closed, plannedActions, ha, hp, nil_append]
  split_ifs <;> simp

lemma commitPlan_total (hep : ValidEpochs log.actions) (hp : log.actions.any isWithdrawal = false)
    (hb : log.actions.any isTruncate = true → ∀ e, TxTableAction.data e ∈ log.actions → ∃ d,
      e.buildDelta = .ok d) : ∃ plan, log.commitPlan = .ok plan := by
  have hd : ((lastTruncate 0 log.actions).map Prod.fst).isSome = true →
      ∀ e, TxTableAction.data e ∈ log.actions → ∃ d, e.delta.1 = .ok d := by
    intro hs e he
    rw [isSome_map, lastTruncate_isSome] at hs
    rw [(hep e he).delta_fst]
    exact hb hs e he
  obtain ⟨f, hf⟩ := planActions_total _ hp hd 0 ⟨[], [], (lastTruncate 0 log.actions).isSome⟩
  rw [commitPlan_ordinary hp]
  exact ⟨_, bind_ok hf⟩

/-! ## The shape of a plan -/

namespace EffectiveCommitAction

/-- The staged action a planned one stands for. -/
def kept : EffectiveCommitAction T → Option (TxTableAction T)
  | .schema update => some (.schema update)
  | .properties update => some (.properties update)
  | .data epoch _ => some (.data epoch)
  | .truncateOnly => none

/-- Carries the truncation of the base table. -/
def isCarrier : EffectiveCommitAction T → Bool
  | .data _ truncateBase => truncateBase
  | .truncateOnly => true
  | _ => false

def isDefinition : EffectiveCommitAction T → Bool
  | .schema _ | .properties _ => true
  | _ => false

end EffectiveCommitAction

def TxTableAction.isDefinition : TxTableAction T → Bool
  | .schema _ | .properties _ => true
  | _ => false

open EffectiveCommitAction (kept isCarrier)

/-- The truncation rides on the first surviving epoch, or ends the plan. -/
def CarriesTruncation (planned : List (EffectiveCommitAction T)) : Prop :=
  (∃ before epoch after, planned = before ++ .data epoch true :: after ∧
      before.all EffectiveCommitAction.isDefinition = true ∧ after.any isCarrier = false) ∨
    ∃ definitions, planned = definitions ++ [.truncateOnly] ∧
      definitions.all EffectiveCommitAction.isDefinition = true

section

variable (cs : List (TxTableAction T))

lemma effective_kept (p : Bool) : (effective p cs).1.filterMap kept = survivors cs := by
  induction cs generalizing p with
  | nil => rfl
  | cons a rest ih =>
    cases a with
    | data e =>
      simp only [effective, survivors]
      split_ifs
      · exact ih p
      · simp [kept, ih]
    | schema | properties => simp [effective, survivors, kept, ih]
    | _ => exact ih p

lemma survivors_definitions : (survivors cs).filter isDefinition = cs.filter isDefinition := by
  induction cs with
  | nil => rfl
  | cons a rest ih =>
    cases a with
    | data e =>
      simp only [survivors]
      split_ifs <;> simp [isDefinition, ih]
    | schema | properties => simp [survivors, filter_cons, isDefinition, ih]
    | _ => simp [survivors, isDefinition, ih]

lemma effective_of_not_pending :
    (effective false cs).1.any isCarrier = false ∧ (effective false cs).2 = false := by
  induction cs with
  | nil => exact ⟨rfl, rfl⟩
  | cons a rest ih =>
    cases a with
    | data e =>
      simp only [effective]
      split_ifs
      · exact ih
      · exact ⟨by simpa [isCarrier] using ih.1, ih.2⟩
    | schema | properties => exact ⟨by simpa [effective, isCarrier] using ih.1, ih.2⟩
    | _ => exact ih

lemma plannedActions_of_not_pending : (plannedActions false cs).any isCarrier = false := by
  obtain ⟨hc, hd⟩ := effective_of_not_pending cs
  simpa [plannedActions, hd] using hc

end

variable {p : List (EffectiveCommitAction T)}

lemma CarriesTruncation.cons (h : CarriesTruncation p) {act : EffectiveCommitAction T}
    (ha : act.isDefinition = true) : CarriesTruncation (act :: p) := by
  rcases h with ⟨b, e, a, rfl, hb, haf⟩ | ⟨d, rfl, hd⟩
  · exact .inl ⟨act :: b, e, a, rfl, by simp [ha, hb], haf⟩
  · exact .inr ⟨act :: d, rfl, by simp [ha, hd]⟩

lemma plannedActions_carries : CarriesTruncation (plannedActions true cs) := by
  induction cs with
  | nil => exact .inr ⟨[], rfl, rfl⟩
  | cons a rest ih =>
    cases a with
    | data e =>
      rw [plannedActions_data]
      split_ifs with hs
      · exact ih
      · exact .inl ⟨[], e, plannedActions false rest, rfl, rfl, plannedActions_of_not_pending rest⟩
    | schema | properties => exact ih.cons rfl
    | _ => exact ih

variable {cs : List (EffectiveCommitAction T)}

lemma isCarrier_of_isDefinition (h : cs.all EffectiveCommitAction.isDefinition = true) :
    cs.countP isCarrier = 0 := by
  refine countP_eq_zero.mpr fun a ha => ?_
  have hd := all_eq_true.mp h a ha
  cases a with
  | schema | properties => simp [isCarrier]
  | data | truncateOnly => cases hd

lemma countP_of_any_eq_false (h : cs.any isCarrier = false) : cs.countP isCarrier = 0 := by
  refine countP_eq_zero.mpr fun a ha => ?_
  simpa using any_eq_false.mp h a ha

lemma CarriesTruncation.count (h : CarriesTruncation p) : p.countP isCarrier = 1 := by
  rcases h with ⟨b, e, a, rfl, hb, ha⟩ | ⟨d, rfl, hd⟩
  · simp [countP_append, countP_cons, isCarrier_of_isDefinition hb,
      countP_of_any_eq_false ha, isCarrier]
  · simp [countP_append, isCarrier_of_isDefinition hd, isCarrier]

/-- What a plan keeps, what it truncates and which guard it checks. -/
structure PlanShape (log : TxTableActionLog T) (plan : TxTableCommitPlan T) : Prop where
  definitions : (plan.actions.filterMap kept).filter TxTableAction.isDefinition =
    log.actions.filter TxTableAction.isDefinition
  kept : plan.actions.filterMap kept = survivors log.actions
  carriers : plan.actions.countP isCarrier =
    if log.actions.any TxTableAction.isTruncate then 1 else 0
  carrier : log.actions.any TxTableAction.isTruncate = true → CarriesTruncation plan.actions
  guard : plan.truncateGuard = (log.actions.filterMap TxTableAction.truncateGuard).getLast?
  exclusive : plan.exclusiveAction = none

lemma commitPlan_shape (hp : log.actions.any isWithdrawal = false) (h : log.commitPlan = .ok plan) :
    PlanShape log plan := by
  obtain ⟨ha, he, hg⟩ := commitPlan_ok hp h
  have hk : plan.actions.filterMap kept = survivors log.actions := by
    rw [ha, plannedActions, filterMap_append, effective_kept]
    split_ifs <;> simp [kept]
  refine ⟨?_, hk, ?_, ?_, hg, he⟩
  · rw [hk]
    exact survivors_definitions log.actions
  · rw [ha]
    cases log.actions.any isTruncate with
    | true => exact (plannedActions_carries log.actions).count
    | false => exact countP_of_any_eq_false (plannedActions_of_not_pending log.actions)
  · intro ht
    rw [ha, ht]
    exact plannedActions_carries log.actions

end LagoDB.ActionLog
