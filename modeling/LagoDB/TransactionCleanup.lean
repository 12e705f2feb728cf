import LagoDB.TransactionCallbacks
import LagoDB.Savepoint
import LagoDB.ExceptLoop
import Mathlib.Data.List.Perm.Basic

/-!
# Every registration is settled once

The list of resources stands for the numbered registrations that are still held,
each under the level it belongs to. Every callback is described by what it does to
them: a release renumbers levels, an abort settles the innermost ones and the end of
the transaction settles the rest. A number is then followed through the whole run.
-/
namespace LagoDB.Transactions

open ExceptLoop List PendingDeleteResource Session Effect
open Savepoint (promoteLevel)

/-! ## The callbacks in terms of what was registered -/

namespace Item

def promote (released : ℕ) (item : Item) : Item :=
  { item with level := promoteLevel released item.level }

def effects (outcome : Outcome) (item : Item) : List Effect :=
  item.registration.effects item.id outcome

lemma settles_of_mem_effects {i : Item} {out : Outcome} {e : Effect}
    (h : e ∈ i.effects out) (id : ℕ) : e.settles id = (i.id == id) := by
  obtain ⟨n, r, l⟩ := i
  cases r with
  | pendingDelete t =>
    cases t <;> cases out <;>
      simp_all [Item.effects, Registration.effects, settles]
  | retirement | leveled | spanning =>
    cases out <;> simp_all [Item.effects, Registration.effects, settles]

lemma panicked_not_mem_effects (i : Item) (out : Outcome) : .panicked ∉ i.effects out := by
  intro h
  simpa [settles] using settles_of_mem_effects h i.id

lemma filter_effects (ts : List Item) (out : Outcome) (id : ℕ) :
    (ts.flatMap (effects out)).filter (settles id) =
      (ts.filter fun i => i.id == id).flatMap (effects out) := by
  induction ts with
  | nil => rfl
  | cons i r ih =>
    rw [flatMap_cons, filter_append, ih, filter_cons]
    have hse (effect) (h : effect ∈ i.effects out) := settles_of_mem_effects h id
    split_ifs with hi
    · rw [filter_eq_self.mpr (by simpa [hi] using hse), flatMap_cons]
    · rw [filter_eq_nil_iff.mpr (by simpa [hi] using hse), nil_append]

end Item

namespace Resource

def items : Resource → List Item
  | .pendingDelete resource =>
    resource.inner.toList.map fun action =>
      ⟨action, .pendingDelete resource.timing, resource.nestLevel⟩
  | .localTableRetirements entries =>
    entries.map fun entry => ⟨entry.retirement, .retirement, entry.nestLevel⟩
  | .leveled id nestLevel => [⟨id, .leveled, nestLevel⟩]
  | .spanning id => [⟨id, .spanning, 1⟩]

/-- A pending delete still has its action. -/
def Boxed : Resource → Prop
  | .pendingDelete resource => resource.inner.isSome = true
  | _ => True

variable {l : ℕ} {r : Resource}

lemma items_promote (h : 2 ≤ l) (r : Resource) :
    (r.promote l).items = r.items.map (Item.promote l) := by
  cases r with
  | pendingDelete r | leveled id nest =>
    simp only [promote, onCommitSub, nestLevel]
    split_ifs with hl <;>
      simp [items, setNestLevel, Item.promote, promoteLevel, hl]
  | localTableRetirements e =>
    have hp : (localTableRetirements e).promote l =
        (localTableRetirements e).onCommitSub l := if_neg (show ¬ l ≤ 1 by omega)
    rw [hp]
    simp only [onCommitSub, items, map_map]
    congr 1
    funext entry
    by_cases hl : l ≤ entry.nestLevel <;> simp [Item.promote, promoteLevel, hl]
  | spanning id =>
    have hb : ¬ l ≤ 1 := by omega
    simp [promote, onCommitSub, nestLevel, hb, items, Item.promote, promoteLevel]

lemma boxed_promote (h : r.Boxed) : (r.promote l).Boxed := by
  unfold promote
  dsimp only
  split_ifs <;> cases r <;> exact h

lemma isLocalTableRetirements_promote :
    (r.promote l).isLocalTableRetirements = r.isLocalTableRetirements := by
  unfold promote
  dsimp only
  split_ifs <;> cases r <;> rfl

lemma isLocalTableRetirements_onAbortSub :
    (r.onAbortSub l).1.isLocalTableRetirements = r.isLocalTableRetirements := by
  cases r <;> rfl

lemma nestLevel_of_isLocalTableRetirements (h : r.isLocalTableRetirements = true) :
    r.nestLevel = 1 := by
  cases r <;> simp_all [isLocalTableRetirements, nestLevel]

lemma onAbort_eq (h : r.Boxed) : r.onAbort = r.items.flatMap (Item.effects .aborted) := by
  cases r with
  | pendingDelete r =>
    obtain ⟨a, ha⟩ := Option.isSome_iff_exists.mp h
    cases ht : r.timing <;>
      simp [onAbort, items, Item.effects, Registration.effects, ha, ht, shouldRunOn, executeAbort]
  | localTableRetirements e =>
    simp [onAbort, items, Item.effects, Registration.effects, flatMap_map]
  | leveled id nest | spanning id => rfl

lemma onCommit_eq (h : r.Boxed) :
    r.onCommit.direct ++ r.onCommit.deferred.flatten.map .executed =
      r.items.flatMap (Item.effects .committed) := by
  cases r with
  | pendingDelete r =>
    obtain ⟨a, ha⟩ := Option.isSome_iff_exists.mp h
    cases ht : r.timing <;>
      simp [onCommit, items, Item.effects, Registration.effects, ha, ht, shouldRunOn]
  | localTableRetirements e =>
    rw [items, flatMap_map]
    have he : e.map (fun n => executed n.retirement) = e.flatMap fun n =>
          Item.effects .committed ⟨n.retirement, .retirement, n.nestLevel⟩ :=
      map_eq_flatMap
    rw [← he]
    cases e <;> simp [onCommit]
  | leveled id nest | spanning id => rfl

lemma onAbortSub_effects (hl : 2 ≤ l) (h : r.Boxed) :
    (r.onAbortSub l).2 = (r.items.filter fun i => l ≤ i.level).flatMap (Item.effects .undone) := by
  cases r with
  | pendingDelete r =>
    obtain ⟨a, ha⟩ := Option.isSome_iff_exists.mp h
    by_cases hn : l ≤ r.nestLevel <;> cases ht : r.timing <;>
      simp [onAbortSub, items, Item.effects, Registration.effects, ha, ht, hn,
        shouldRunOn, executeAbort]
  | localTableRetirements e => simp [onAbortSub, items, Item.effects, Registration.effects]
  | leveled id n =>
    by_cases hn : l ≤ n <;>
      simp [onAbortSub, items, Item.effects, Registration.effects, hn]
  | spanning id =>
    have hb : ¬ l ≤ 1 := by omega
    simp [onAbortSub, items, hb]

lemma onAbortSub_items (hl : 2 ≤ l) (r : Resource) :
    ([(r.onAbortSub l).1].filter fun k => k.nestLevel < l).flatMap items =
      r.items.filter fun i => i.level < l := by
  cases r with
  | pendingDelete r =>
    by_cases hn : r.nestLevel < l <;>
      cases hi : r.inner <;> simp [onAbortSub, items, nestLevel, hn, hi]
  | localTableRetirements e =>
    have ha : 1 < l := by omega
    simp [onAbortSub, items, nestLevel, ha, filter_map, Function.comp_def]
  | leveled id n => by_cases hn : n < l <;> simp [onAbortSub, items, nestLevel, hn]
  | spanning id =>
    have ha : 1 < l := by omega
    simp [onAbortSub, items, nestLevel, ha]

end Resource

/-! ## Invariant -/

attribute [local simp] Resource.isLocalTableRetirements Resource.items

namespace Session

variable {s : Session}

def items (s : Session) : List Item := s.resources.flatMap Resource.items

structure Inv (s : Session) : Prop where
  level : 1 ≤ s.nestLevel
  boxed : ∀ resource ∈ s.resources, resource.Boxed
  collection :
    s.resources.countP Resource.isLocalTableRetirements = if s.current then 1 else 0
  numbered : ∀ item ∈ s.items, item.id < s.next
  levels : ∀ item ∈ s.items, 1 ≤ item.level ∧ item.level ≤ s.nestLevel
  settled : ∀ effect ∈ s.log, ∀ id, effect.settles id = true → id < s.next
  empty : s.deferred = []
  sound : .panicked ∉ s.log

lemma Inv.initial : Inv .initial := by
  constructor <;> simp [Session.initial, items]

open Resource

lemma items_commitSub (h : 2 ≤ s.nestLevel) :
    s.commitSub.items = s.items.map (Item.promote s.nestLevel) := by
  simp only [items, commitSub, flatMap_map, map_flatMap, items_promote h]

lemma items_abortSub (h : 2 ≤ s.nestLevel) :
    s.abortSub.items = s.items.filter fun i => i.level < s.nestLevel := by
  simp only [items, abortSub]
  induction s.resources with
  | nil => rfl
  | cons r rest ih =>
    rw [map_cons, map_cons, flatMap_cons, filter_append, ← onAbortSub_items h r, ← ih,
      ← flatMap_append, ← filter_append, singleton_append]

lemma log_abortSub (h : s.Inv) (hl : 2 ≤ s.nestLevel) : s.abortSub.log = s.log ++
      (s.items.filter fun i => s.nestLevel ≤ i.level).flatMap (Item.effects .undone) := by
  have hc : s.abortSub.log =
      s.log ++ s.resources.flatMap fun r => (r.onAbortSub s.nestLevel).2 := by
    simp [abortSub, flatMap_map]
  rw [hc, items, filter_flatMap, flatMap_assoc]
  congr 1
  refine flatMap_congr fun r hm => ?_
  exact onAbortSub_effects hl (h.boxed r hm)

/-- Every event of the top level reaches every resource. -/
lemma Inv.called_eq (h : s.Inv) (hl : s.nestLevel = 1) : s.called = s.resources := by
  refine filter_eq_self.mpr fun r hm => ?_
  have hi (item) (hit : item ∈ r.items) := h.levels item (mem_flatMap.mpr ⟨r, hm, hit⟩)
  have hb := h.boxed r hm
  rw [hl, decide_eq_true_iff]
  cases r with
  | pendingDelete r =>
    obtain ⟨a, ha⟩ := Option.isSome_iff_exists.mp hb
    have ho := hi ⟨a, .pendingDelete r.timing, r.nestLevel⟩ (by simp [ha])
    exact ho.1
  | localTableRetirements e => exact le_rfl
  | leveled id n =>
    have ho := hi ⟨id, .leveled, n⟩ (by simp)
    exact ho.1
  | spanning id => exact le_rfl

lemma log_rollback (h : s.Inv) (hl : s.nestLevel = 1) : (s.abortCallback.releaseCleanup false).log =
      s.log ++ s.items.flatMap (Item.effects .aborted) := by
  have hc : (s.abortCallback.releaseCleanup false).log = s.log ++ s.resources.flatMap onAbort := by
    simp [releaseCleanup, abortCallback, h.called_eq hl]
  rw [hc, items, flatMap_assoc]
  congr 1
  exact flatMap_congr fun r hm => onAbort_eq (h.boxed r hm)

lemma log_commit (h : s.Inv) (hl : s.nestLevel = 1) :
    ∃ es, (s.commitCallback.releaseCleanup true).log = s.log ++ es ∧
      es.Perm (s.items.flatMap (Item.effects .committed)) := by
  refine ⟨(s.resources.flatMap fun r => r.onCommit.direct) ++
    s.resources.flatMap fun r => r.onCommit.deferred.flatten.map .executed, ?_, ?_⟩
  · have hf : (s.resources.flatMap fun r => r.onCommit.deferred).flatten =
        s.resources.flatMap fun r => r.onCommit.deferred.flatten := by
      simp only [← flatMap_id, flatMap_assoc]
    simp only [releaseCleanup, commitCallback, h.called_eq hl, h.empty, nil_append,
      hf, map_flatMap, append_assoc, if_true]
  · rw [items, flatMap_assoc]
    refine (flatMap_append_perm _ _ _).trans (List.Perm.of_eq ?_)
    exact flatMap_congr fun r hm => onCommit_eq (h.boxed r hm)

/-! ### Registrations -/

variable {rs : List Resource}

lemma items_push_of_none (e : TrackedRetirement) (h : rs.countP isLocalTableRetirements = 0) :
    rs.map (pushRetirement e) = rs := by
  rw [countP_eq_zero] at h
  refine map_congr_left (fun r hm => ?_) |>.trans (map_id _)
  have ho := h r hm
  cases r <;> simp_all [pushRetirement]

lemma items_push (entry : TrackedRetirement) (h : rs.countP Resource.isLocalTableRetirements = 1) :
    ((rs.map (Resource.pushRetirement entry)).flatMap Resource.items).Perm
      (rs.flatMap Resource.items ++ [⟨entry.retirement, .retirement, entry.nestLevel⟩]) := by
  induction rs with
  | nil => simp at h
  | cons r rest ih =>
    cases r with
    | localTableRetirements e =>
      rw [countP_cons_of_pos rfl] at h
      have hr : rest.countP Resource.isLocalTableRetirements = 0 := by omega
      rw [map_cons, items_push_of_none entry hr]
      simp only [Resource.pushRetirement, flatMap_cons, Resource.items, map_append,
        map_cons, map_nil, append_assoc]
      exact perm_append_comm.append_left _
    | pendingDelete r | leveled id nest | spanning id =>
      simp only [map_cons, Resource.pushRetirement, flatMap_cons, append_assoc]
      exact (ih h).append_left _

lemma Inv.openRetirements (h : s.Inv) : s.openRetirements.Inv ∧
    s.openRetirements.current = true ∧ s.openRetirements.items = s.items := by
  unfold Session.openRetirements
  split_ifs with hc
  · exact ⟨h, hc, rfl⟩
  · have hi : items { s.registerResource (.localTableRetirements []) with
        current := true } = s.items := by
      simp [items, registerResource]
    refine ⟨⟨h.level, ?_, ?_, ?_, ?_, h.settled, h.empty, h.sound⟩, rfl, hi⟩
    · exact forall_mem_append.mpr ⟨h.boxed, by simp [Resource.Boxed]⟩
    · have hn := h.collection
      simp [registerResource, hn, hc]
    · rw [hi]
      exact h.numbered
    · rw [hi]
      exact h.levels

section

variable (g : Registration)

lemma items_register (h : s.Inv) :
    (s.register g).items.Perm (s.items ++ [⟨s.next, g, g.owner s.nestLevel⟩]) := by
  cases g with
  | retirement =>
    obtain ⟨ho, hc, hi⟩ := h.openRetirements
    have hp := items_push ⟨s.nestLevel, s.next⟩ (by
      rw [ho.collection, if_pos hc])
    rw [← hi]
    exact hp
  | pendingDelete timing | leveled | spanning =>
    simp [register, items, registerResource, Registration.owner]

lemma register_eq (s : Session) :
    ∃ rs c, s.register g = { s with resources := rs, current := c, next := s.next + 1 } := by
  cases g with
  | retirement =>
    simp only [register, openRetirements]
    split_ifs
    · exact ⟨_, _, rfl⟩
    · exact ⟨_, _, rfl⟩
  | pendingDelete timing | leveled | spanning => exact ⟨_, _, rfl⟩

@[simp] lemma next_register (s : Session) : (s.register g).next = s.next + 1 := by
  obtain ⟨r, c, hr⟩ := s.register_eq g
  rw [hr]

@[simp] lemma nestLevel_register (s : Session) : (s.register g).nestLevel = s.nestLevel := by
  obtain ⟨r, c, hr⟩ := s.register_eq g
  rw [hr]

@[simp] lemma log_register (s : Session) : (s.register g).log = s.log := by
  obtain ⟨r, c, hr⟩ := s.register_eq g
  rw [hr]

@[simp] lemma finished_register (s : Session) : (s.register g).finished = s.finished := by
  obtain ⟨r, c, hr⟩ := s.register_eq g
  rw [hr]

lemma boxed_register (h : s.Inv) : ∀ r ∈ (s.register g).resources, r.Boxed := by
  cases g with
  | retirement =>
    intro r hm
    obtain ⟨o, ho, rfl⟩ := mem_map.mp hm
    have hb := h.openRetirements.1.boxed o ho
    cases o <;> exact hb
  | pendingDelete timing | leveled | spanning =>
    exact forall_mem_append.mpr ⟨h.boxed, by simp [Resource.Boxed]⟩

lemma collection_register (h : s.Inv) : (s.register g).resources.countP isLocalTableRetirements =
      if (s.register g).current then 1 else 0 := by
  cases g with
  | retirement =>
    have hsa (entry) : isLocalTableRetirements ∘ pushRetirement entry =
        isLocalTableRetirements := by
      funext resource
      cases resource <;> rfl
    simp only [register, countP_map, hsa]
    exact h.openRetirements.1.collection
  | pendingDelete timing | leveled | spanning =>
    refine Eq.trans ?_ h.collection
    simp [register, registerResource]

end

lemma Inv.register (h : s.Inv) (g : Registration) : (s.register g).Inv := by
  have hi := items_register g h
  have hf {P : Item → Prop} (ho : ∀ i ∈ s.items, P i) (hn : P ⟨s.next, g, g.owner s.nestLevel⟩) :
      ∀ i ∈ (s.register g).items, P i := by
    intro i hm
    obtain hm | hm := mem_append.mp (hi.mem_iff.mp hm)
    · exact ho i hm
    · rwa [mem_singleton.mp hm]
  have hl := h.level
  refine ⟨?_, boxed_register g h, collection_register g h, ?_, ?_, ?_, ?_, ?_⟩
  · rwa [nestLevel_register]
  · rw [next_register]
    exact hf (fun i hm => (h.numbered i hm).trans (Nat.lt_succ_self _)) (Nat.lt_succ_self _)
  · rw [nestLevel_register]
    refine hf h.levels ?_
    cases g <;> simp only [Registration.owner] <;> omega
  · rw [log_register]
    exact fun e hm id hse => (h.settled e hm id hse).trans (Nat.lt_succ_self _)
  · obtain ⟨r, c, hr⟩ := s.register_eq g
    rw [hr]
    exact h.empty
  · rw [log_register]
    exact h.sound

/-! ### Subtransactions and the end -/

lemma Inv.commitSub (h : s.Inv) (hl : 2 ≤ s.nestLevel) : s.commitSub.Inv := by
  have hm {i : Item} (hi : i ∈ s.commitSub.items) : ∃ o ∈ s.items, o.promote s.nestLevel = i := by
    rwa [items_commitSub hl, mem_map] at hi
  refine ⟨by simp only [Session.commitSub]; omega, ?_, ?_, ?_, ?_, h.settled, h.empty, h.sound⟩
  · intro r hr
    obtain ⟨o, ho, rfl⟩ := mem_map.mp hr
    exact boxed_promote (h.boxed o ho)
  · refine Eq.trans ?_ h.collection
    simp only [Session.commitSub, countP_map, Function.comp_def, isLocalTableRetirements_promote]
  · intro i hi
    obtain ⟨o, ho, rfl⟩ := hm hi
    exact h.numbered o ho
  · intro i hi
    obtain ⟨o, ho, rfl⟩ := hm hi
    have ho := h.levels o ho
    simp only [Item.promote, promoteLevel, Session.commitSub]
    split_ifs <;> omega

variable {es : List Effect} {out : Outcome}

/-- The effects of items settle their numbers and nothing else. -/
lemma Inv.settled_append (h : s.Inv) {ts : List Item} (hit : ts ⊆ s.items)
    (hef : es.Perm (ts.flatMap (Item.effects out))) :
    (∀ e ∈ s.log ++ es, ∀ id, e.settles id = true → id < s.next) ∧ .panicked ∉ s.log ++ es := by
  have ho {e : Effect} (hm : e ∈ es) : ∃ i ∈ s.items, e ∈ i.effects out := by
    obtain ⟨i, hi, he⟩ := mem_flatMap.mp (hef.mem_iff.mp hm)
    exact ⟨i, hit hi, he⟩
  constructor
  · refine forall_mem_append.mpr ⟨h.settled, fun e hm id hse => ?_⟩
    obtain ⟨i, hi, he⟩ := ho hm
    rw [Item.settles_of_mem_effects he, beq_iff_eq] at hse
    exact hse ▸ h.numbered i hi
  · rw [mem_append, not_or]
    refine ⟨h.sound, fun hm => ?_⟩
    obtain ⟨i, -, he⟩ := ho hm
    exact i.panicked_not_mem_effects out he

lemma Inv.abortSub (h : s.Inv) (hl : 2 ≤ s.nestLevel) : s.abortSub.Inv := by
  obtain ⟨hse, hso⟩ := h.settled_append (filter_sublist.subset)
    (.refl ((s.items.filter fun i => s.nestLevel ≤ i.level).flatMap (Item.effects .undone)))
  rw [← log_abortSub h hl] at hse hso
  have hm {i : Item} (hi : i ∈ s.abortSub.items) : i ∈ s.items ∧ i.level < s.nestLevel := by
    rw [items_abortSub hl] at hi
    simpa using hi
  refine ⟨by simp only [Session.abortSub]; omega, ?_, ?_, fun i hi =>
    h.numbered i (hm hi).1, fun i hi => ?_, hse, h.empty, hso⟩
  · intro r hr
    obtain ⟨hr, -⟩ := mem_filter.mp hr
    simp only [map_map, mem_map] at hr
    obtain ⟨o, ho, rfl⟩ := hr
    have hb := h.boxed o ho
    cases o <;> exact hb
  · refine Eq.trans ?_ h.collection
    rw [Session.abortSub, countP_filter, map_map, countP_map]
    refine countP_congr fun r _ => ?_
    simp only [Function.comp, isLocalTableRetirements_onAbortSub, Bool.and_eq_true,
      decide_eq_true_iff, and_iff_left_iff_imp]
    intro hc
    rw [nestLevel_of_isLocalTableRetirements]
    · omega
    · rwa [isLocalTableRetirements_onAbortSub]
  · have ho := hm hi
    have hlev := h.levels i ho.1
    simp only [Session.abortSub]
    omega

lemma Inv.takeResources (h : s.Inv) (hl : s.nestLevel = 1) : s.takeResources.current = false := by
  have hc := h.collection
  simp only [Session.takeResources, h.called_eq hl]
  cases hcu : s.current with
  | false => rfl
  | true =>
    rw [hcu, if_pos rfl] at hc
    have ha : s.resources.any isLocalTableRetirements = true := by
      rw [any_eq_true]
      exact countP_pos_iff.mp (by omega)
    simp [ha]

lemma Inv.finish (h : s.Inv) (he : es.Perm (s.items.flatMap (Item.effects out))) {t : Session}
    (hr : t.resources = []) (hc : t.current = false) (hd : t.deferred = []) (hn : t.nestLevel = 1)
    (hne : t.next = s.next) (hl : t.log = s.log ++ es) : t.Inv := by
  obtain ⟨hse, hso⟩ := h.settled_append (List.Subset.refl _) he
  have hi : t.items = [] := by simp [items, hr]
  refine ⟨hn.ge, by simp [hr], by simp [hr, hc], by simp [hi], by simp [hi], ?_, hd, ?_⟩
  · rwa [hl, hne]
  · rwa [hl]

end Session

/-! ## One number through a run -/

/-- What the session holds and has done of a number. -/
structure Session.Shows (s : Session) (id : ℕ) (held : List Item) (effects : List Effect) :
    Prop where
  held : (s.items.filter fun item => item.id == id).Perm held
  settled : (s.log.filter (settles id)).Perm effects

namespace Session

variable {s : Session} {id : ℕ} {held : List Item} {effects : List Effect}

lemma Inv.shows_next (h : s.Inv) : s.Shows s.next [] [] := by
  refine ⟨.of_eq (filter_eq_nil_iff.mpr fun i hm => ?_),
    .of_eq (filter_eq_nil_iff.mpr fun e hm hse => ?_)⟩
  · have hlt := h.numbered i hm
    simp only [beq_iff_eq]
    omega
  · exact absurd (h.settled e hm _ hse) (lt_irrefl _)

section

variable (hs : s.Shows id held effects)

include hs

lemma Shows.register (h : s.Inv) (r : Registration) : (s.register r).Shows id
      (held ++ if s.next = id then [⟨s.next, r, r.owner s.nestLevel⟩] else []) effects := by
  refine ⟨((items_register r h).filter _).trans ?_, ?_⟩
  · rw [filter_append]
    refine hs.held.append (.of_eq ?_)
    split_ifs with hi <;> simp [hi]
  · rw [log_register]
    exact hs.settled

lemma Shows.commitSub (hl : 2 ≤ s.nestLevel) :
    s.commitSub.Shows id (held.map (Item.promote s.nestLevel)) effects := by
  refine ⟨?_, hs.settled⟩
  rw [items_commitSub hl, filter_map]
  exact hs.held.map _

lemma Shows.abortSub (h : s.Inv) (hl : 2 ≤ s.nestLevel) :
    s.abortSub.Shows id (held.filter fun i => i.level < s.nestLevel)
      (effects ++ (held.filter fun i => s.nestLevel ≤ i.level).flatMap (Item.effects .undone)) := by
  constructor
  · rw [items_abortSub hl, filter_comm]
    exact hs.held.filter _
  · rw [log_abortSub h hl, filter_append, Item.filter_effects, filter_comm]
    exact hs.settled.append ((hs.held.filter _).flatMap_right _)

/-- At the end everything that is held is settled. -/
lemma Shows.finish {out : Outcome} {said : List Effect}
    (hsa : said.Perm (s.items.flatMap (Item.effects out))) {t : Session} (hr : t.resources = [])
    (hl : t.log = s.log ++ said) : t.Shows id [] (effects ++ held.flatMap (Item.effects out)) := by
  constructor
  · simp [items, hr]
  · rw [hl, filter_append]
    refine hs.settled.append ((hsa.filter _).trans ?_)
    rw [Item.filter_effects]
    exact hs.held.flatMap_right _

end

/-! ### Steps -/

def Steps (s : Session) (operation : Operation) (t : Session) : Prop :=
  match operation with
  | .register registration => t = s.register registration
  | .start => t = { s with nestLevel := s.nestLevel + 1 }
  | .release => 2 ≤ s.nestLevel ∧ t = s.commitSub
  | .abort => 2 ≤ s.nestLevel ∧ t = s.abortSub
  | .preCommit => t = { s with snapshot := some s.resources }
  | .onPreCommit => ∃ (resource : Resource) (rest : List Resource), t = { s with
      snapshot := some rest
      log := s.log ++ if s.nestLevel ≤ resource.nestLevel then resource.onPreCommit else [] }
  | .commit => s.nestLevel = 1 ∧ t = { s.commitCallback.releaseCleanup true with finished := true }
  | .rollback =>
    s.nestLevel = 1 ∧ t = { s.abortCallback.releaseCleanup false with finished := true }

variable {op : Operation}

lemma step_cases {t : Session} (h : s.step op = some t) : s.finished = false ∧ s.Steps op t := by
  unfold step at h
  by_cases hf : s.finished = true
  · rw [if_pos hf] at h
    cases h
  rw [if_neg hf] at h
  refine ⟨by simpa using hf, ?_⟩
  cases op with
  | register | start => exact (Option.some.inj h).symm
  | release | abort | rollback =>
    obtain ⟨hl, h⟩ := Option.ite_none_right_eq_some.mp h
    exact ⟨hl, (Option.some.inj h).symm⟩
  | preCommit =>
    obtain ⟨-, h⟩ := Option.ite_none_right_eq_some.mp h
    exact (Option.some.inj h).symm
  | onPreCommit =>
    dsimp only at h
    split at h
    · obtain ⟨-, h⟩ := Option.ite_none_right_eq_some.mp h
      exact ⟨_, _, (Option.some.inj h).symm⟩
    · cases h
  | commit =>
    obtain ⟨⟨hl, -⟩, h⟩ := Option.ite_none_right_eq_some.mp h
    exact ⟨hl, (Option.some.inj h).symm⟩

lemma onPreCommit_settles (l : ℕ) (r : Resource) :
    ∀ e ∈ if l ≤ r.nestLevel then r.onPreCommit else [],
      e ≠ .panicked ∧ ∀ id, e.settles id = false := by
  split_ifs
  · cases r <;> simp [Resource.onPreCommit, settles]
  · simp

lemma Inv.step (h : s.Inv) {t : Session} (hst : s.step op = some t) : t.Inv := by
  obtain ⟨-, hc⟩ := step_cases hst
  cases op with
  | register r =>
    obtain rfl := hc
    exact h.register r
  | start =>
    obtain rfl := hc
    refine ⟨Nat.le_add_left _ _, h.boxed, h.collection, h.numbered, fun i hm => ?_, h.settled,
      h.empty, h.sound⟩
    have hlev := h.levels i hm
    exact ⟨hlev.1, hlev.2.trans (Nat.le_succ _)⟩
  | release =>
    obtain ⟨hl, rfl⟩ := hc
    exact h.commitSub hl
  | abort =>
    obtain ⟨hl, rfl⟩ := hc
    exact h.abortSub hl
  | preCommit =>
    obtain rfl := hc
    exact ⟨h.level, h.boxed, h.collection, h.numbered, h.levels, h.settled, h.empty, h.sound⟩
  | onPreCommit =>
    obtain ⟨resource, rest, rfl⟩ := hc
    have hsa := onPreCommit_settles s.nestLevel resource
    refine ⟨h.level, h.boxed, h.collection, h.numbered, h.levels, ?_, h.empty, ?_⟩
    · refine forall_mem_append.mpr ⟨h.settled, fun e hm id hse => ?_⟩
      rw [(hsa e hm).2 id] at hse
      cases hse
    · rw [mem_append, not_or]
      exact ⟨h.sound, fun hm => (hsa _ hm).1 rfl⟩
  | commit =>
    obtain ⟨hl, rfl⟩ := hc
    obtain ⟨said, hlo, hsa⟩ := log_commit h hl
    exact h.finish hsa rfl (h.takeResources hl) rfl hl rfl hlo
  | rollback =>
    obtain ⟨hl, rfl⟩ := hc
    exact h.finish (.refl _) rfl (h.takeResources hl) rfl hl rfl (log_rollback h hl)

lemma next_le_step {t : Session} (hst : s.step op = some t) : s.next ≤ t.next := by
  obtain ⟨-, hc⟩ := step_cases hst
  cases op with
  | register r =>
    obtain rfl := hc
    exact Nat.le_succ _
  | start | preCommit =>
    obtain rfl := hc
    exact le_rfl
  | onPreCommit =>
    obtain ⟨resource, rest, rfl⟩ := hc
    exact le_rfl
  | release | abort | commit | rollback =>
    obtain ⟨-, rfl⟩ := hc
    exact le_rfl

/-- What an operation at a level leaves of the items that are held. -/
def keeps (level : ℕ) (held : List Item) : Operation → List Item
  | .release => held.map (Item.promote level)
  | .abort => held.filter fun item => item.level < level
  | .commit | .rollback => []
  | .register _ | .start | .preCommit | .onPreCommit => held

/-- What it does for the others. -/
def settles (level : ℕ) (held : List Item) : Operation → List Effect
  | .abort => (held.filter fun item => level ≤ item.level).flatMap (Item.effects .undone)
  | .commit => held.flatMap (Item.effects .committed)
  | .rollback => held.flatMap (Item.effects .aborted)
  | .register _ | .start | .release | .preCommit | .onPreCommit => []

lemma Shows.step (hs : s.Shows id held effects) (h : s.Inv) (hi : id < s.next)
    {t : Session} (hst : s.step op = some t) :
    t.Shows id (keeps s.nestLevel held op) (effects ++ settles s.nestLevel held op) := by
  obtain ⟨-, hc⟩ := step_cases hst
  cases op with
  | register registration =>
    obtain rfl := hc
    have hn := hs.register h registration
    rw [if_neg (by omega)] at hn
    simpa [keeps, settles] using hn
  | start | preCommit =>
    obtain rfl := hc
    exact ⟨hs.held, by simpa [settles] using hs.settled⟩
  | release =>
    obtain ⟨hl, rfl⟩ := hc
    simpa [keeps, settles] using hs.commitSub hl
  | abort =>
    obtain ⟨hl, rfl⟩ := hc
    exact hs.abortSub h hl
  | onPreCommit =>
    obtain ⟨r, rest, rfl⟩ := hc
    refine ⟨hs.held, ?_⟩
    have hsi : (if s.nestLevel ≤ r.nestLevel then r.onPreCommit else []).filter
        (Effect.settles id) = [] := by
      refine filter_eq_nil_iff.mpr fun e hm => ?_
      simp [(onPreCommit_settles s.nestLevel r e hm).2 id]
    simpa [settles, filter_append, hsi] using hs.settled
  | commit =>
    obtain ⟨hl, rfl⟩ := hc
    obtain ⟨said, hlo, hsa⟩ := log_commit h hl
    exact hs.finish hsa rfl hlo
  | rollback =>
    obtain ⟨hl, rfl⟩ := hc
    exact hs.finish (.refl _) rfl (log_rollback h hl)

/-! ### Runs -/

lemma run_cons {rest : List Operation} {t : Session} (h : s.run (op :: rest) = some t) :
    ∃ next, s.step op = some next ∧ next.run rest = some t := by
  exact Option.bind_eq_some_iff.mp h

lemma Inv.run (h : s.Inv) {os : List Operation} {t : Session} (hr : s.run os = some t) : t.Inv :=
  foldlM_eq_some (I := fun _ s => s.Inv) (fun _ _ _ _ _ hi hst => hi.step hst) [] h hr

lemma Shows.run_settled (hs : s.Shows id [] effects) (h : s.Inv) (hi : id < s.next)
    {os : List Operation} {t : Session} (hru : s.run os = some t) : t.Shows id [] effects := by
  induction os generalizing s with
  | nil =>
    cases hru
    exact hs
  | cons op r ih =>
    obtain ⟨n, hst, hr⟩ := run_cons hru
    have hnex := hs.step h hi hst
    have hn : keeps s.nestLevel [] op = [] ∧ settles s.nestLevel [] op = [] := by
      cases op <;> exact ⟨rfl, rfl⟩
    rw [hn.1, hn.2, append_nil] at hnex
    exact ih hnex (h.step hst) (hi.trans_le (next_le_step hst)) hr

/-- What is held follows its fate, and a transaction that ended settled it. -/
lemma Shows.run {i : Item} (hs : s.Shows i.id [i] []) (h : s.Inv)
    (hid : i.id < s.next) (ho : s.finished = false) {os : List Operation}
    {t : Session} (hru : s.run os = some t) (he : t.finished = true) :
    ∃ out, fate i.level s.nestLevel os = some out ∧
      t.Shows i.id [] (i.effects out) ∧ (i.level = 1 → out ≠ .undone) := by
  induction os generalizing s i with
  | nil =>
    cases hru
    simp [ho] at he
  | cons op rest ih =>
    obtain ⟨n, hst, hr⟩ := run_cons hru
    have hn := hs.step h hid hst
    have hinv := h.step hst
    have hl := hid.trans_le (next_le_step hst)
    have hleve : i.level ≤ s.nestLevel := by
      have hm : i ∈ s.items.filter fun o => o.id == i.id :=
        hs.held.mem_iff.mpr (mem_singleton_self _)
      exact (h.levels i (mem_of_mem_filter hm)).2
    obtain ⟨-, hc⟩ := step_cases hst
    cases op with
    | register registration =>
      obtain rfl := hc
      obtain ⟨out, hf, hsh⟩ := ih hn hinv hl (by simpa using ho) hr
      rw [nestLevel_register] at hf
      exact ⟨out, hf, hsh⟩
    | start =>
      obtain rfl := hc
      exact ih hn hinv hl ho hr
    | preCommit =>
      obtain rfl := hc
      exact ih (s := { s with snapshot := some s.resources }) hn hinv hl ho hr
    | release =>
      obtain ⟨hle, rfl⟩ := hc
      have hp : s.commitSub.Shows (i.promote s.nestLevel).id [i.promote s.nestLevel] [] := hn
      obtain ⟨out, hf, hsh, ht⟩ := ih hp hinv hl ho hr
      have hown : (i.promote s.nestLevel).level =
          if i.level = s.nestLevel then s.nestLevel - 1 else i.level := by
        simp only [Item.promote, promoteLevel]
        split_ifs <;> omega
      rw [hown] at hf ht
      refine ⟨out, hf, hsh, fun hon => ht ?_⟩
      split_ifs <;> omega
    | abort =>
      obtain ⟨hle, rfl⟩ := hc
      by_cases hown : i.level = s.nestLevel
      · have hse : s.abortSub.Shows i.id [] (i.effects .undone) := by
          simpa [keeps, settles, hown] using hn
        exact ⟨.undone, if_pos hown, hse.run_settled hinv hl hr, by omega⟩
      · have hi : i.level < s.nestLevel := by omega
        have hk : s.abortSub.Shows i.id [i] [] := by
          simpa [keeps, settles, hi, hi.not_ge] using hn
        obtain ⟨out, hf, hsh⟩ := ih hk hinv hl ho hr
        exact ⟨out, (if_neg hown).trans hf, hsh⟩
    | onPreCommit =>
      obtain ⟨resource, r, ha⟩ := hc
      have hle : n.nestLevel = s.nestLevel := by rw [ha]
      rw [← hle]
      exact ih (s := n) hn hinv hl (by rw [ha]; exact ho) hr
    | commit | rollback =>
      refine ⟨_, rfl, ?_, by simp⟩
      simpa [keeps, settles] using hn.run_settled hinv hl hr

end Session

lemma Registration.effects_cases (g : Registration) (id : ℕ) (out : Outcome) :
    g.effects id out = [] ∨ ∃ e, g.effects id out = [e] := by
  cases g with
  | pendingDelete t => cases t <;> cases out <;> first | exact .inl rfl | exact .inr ⟨_, rfl⟩
  | retirement | leveled | spanning => cases out <;> first | exact .inl rfl | exact .inr ⟨_, rfl⟩

/-! ## Guarantees -/

namespace Session

variable {s : Session}

/-- Whatever is registered in a transaction that ends, at any level and also by a
pre-commit callback, is settled once as the levels it belonged to ended: an abort
action runs when one of them aborts, a commit action when none did, and any other
resource is called back once, by the top level unless a subtransaction it belonged
to aborts. No `expect` fails. -/
theorem register_settled_once {before after : List Operation} {registration : Registration}
    {t : Session} (hbefore : initial.run before = some s)
    (hafter : s.run (.register registration :: after) = some t) (hend : t.finished = true) :
    (∃ outcome, fate (registration.owner s.nestLevel) s.nestLevel after = some outcome ∧
      t.log.filter (Effect.settles s.next) = registration.effects s.next outcome ∧
      (registration.owner s.nestLevel = 1 → outcome ≠ .undone)) ∧ .panicked ∉ t.log := by
  have h := Inv.initial.run hbefore
  obtain ⟨next, hst, hr⟩ := run_cons hafter
  have hinv := h.step hst
  obtain ⟨ho, hc⟩ := step_cases hst
  obtain rfl := hc
  have hsh : (s.register registration).Shows s.next
      [⟨s.next, registration, registration.owner s.nestLevel⟩] [] := by
    simpa using h.shows_next.register h registration
  obtain ⟨outcome, hf, hse, ht⟩ := @Shows.run _ ⟨s.next, registration,
    registration.owner s.nestLevel⟩ hsh hinv (by simp) (by simpa using ho) _ _ hr hend
  rw [nestLevel_register] at hf
  refine ⟨⟨outcome, hf, ?_, ht⟩, (hinv.run hr).sound⟩
  have hp := hse.settled
  change List.Perm _ (registration.effects s.next outcome) at hp
  obtain hn | ⟨e, hone⟩ := registration.effects_cases s.next outcome
  · rw [hn] at hp ⊢
    exact hp.eq_nil
  · rw [hone] at hp ⊢
    exact hp.eq_singleton

/-- A savepoint that is released and one that is rolled back, then a resource that
a pre-commit callback registers. -/
def nestedBefore : List Operation :=
  [.register .spanning, .start, .register (.pendingDelete .onAbort), .register .retirement,
    .release, .start, .register (.pendingDelete .onAbort), .abort, .preCommit, .onPreCommit]

theorem nested_settled_once :
    ∃ s t, initial.run nestedBefore = some s ∧
      s.run [.register .leveled, .onPreCommit, .onPreCommit, .commit] = some t ∧ t.finished = true ∧
      ((∃ outcome, fate (Registration.leveled.owner s.nestLevel) s.nestLevel
          [.onPreCommit, .onPreCommit, .commit] = some outcome ∧
        t.log.filter (Effect.settles s.next) = Registration.leveled.effects s.next outcome ∧
        (Registration.leveled.owner s.nestLevel = 1 → outcome ≠ .undone)) ∧ .panicked ∉ t.log) ∧
      t.log = [.executed 3, .preCommitted 0, .committed 0, .committed 4, .executed 2] := by
  have hr : ∃ s t, initial.run nestedBefore = some s ∧
      s.run [.register .leveled, .onPreCommit, .onPreCommit, .commit] = some t ∧
      t.finished = true ∧
      t.log = [.executed 3, .preCommitted 0, .committed 0, .committed 4, .executed 2] :=
    ⟨_, _, rfl, rfl, rfl, rfl⟩
  obtain ⟨s, t, hb, ha, he, hl⟩ := hr
  exact ⟨s, t, hb, ha, he, register_settled_once hb ha he, hl⟩

end Session

end LagoDB.Transactions
