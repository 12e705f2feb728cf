import Mathlib.Data.List.AList
import Mathlib.Data.List.Induction

/-!
# Reconciling the configured stores

Every call brings the registered stores to the desired volumes, one by one. A volume whose
store cannot be built or registered keeps its last working one.
-/
namespace LagoDB.StoreReconciler

open List AList

/-- Storage as the reconciler sees it. `World` is what a materialization reads outside. -/
structure Provider where
  Location : Type
  Credential : Type
  Config : Type
  PrepareError : Type
  RegisterError : Type
  World : Type
  [locationEq : DecidableEq Location]
  [credentialEq : DecidableEq Credential]
  storeConfig : World → Location → Credential → Except PrepareError Config

attribute [instance] Provider.locationEq Provider.credentialEq

variable {P : Provider}

abbrev VolumeMap (V : Type) := AList fun _ : ℕ => V

structure VolumeStoreSpec (P : Provider) where
  volumeId : ℕ
  location : P.Location
  credential : P.Credential
  reloadOnForce : Bool
  deriving DecidableEq

def VolumeStoreSpec.materializeStoreConfig (spec : VolumeStoreSpec P) (world : P.World) :
    Except P.PrepareError P.Config :=
  P.storeConfig world spec.location spec.credential

inductive VolumeApplyState where
  | stale
  | unavailable
  deriving DecidableEq

inductive VolumeApplyError (P : Provider) where
  | prepare (error : P.PrepareError)
  | register (error : P.RegisterError)

structure VolumeApplyFailure (P : Provider) where
  volumeId : ℕ
  state : VolumeApplyState
  error : VolumeApplyError P

structure ReconcileReport (P : Provider) where
  added : ℕ
  removed : ℕ
  replaced : ℕ
  unchanged : ℕ
  desired : ℕ
  loaded : ℕ
  stale : ℕ
  unavailable : ℕ
  failures : List (VolumeApplyFailure P)

structure StoreConfigReconciler (P : Provider) where
  registry : VolumeMap P.Config
  applied : VolumeMap (VolumeStoreSpec P)
  rejected : VolumeMap (VolumeStoreSpec P)

/-- One call: what it is given, what each volume's materialization sees, and the registry's
error for each volume, if any. -/
structure Call (P : Provider) where
  desired : VolumeMap (VolumeStoreSpec P)
  forceDefaultChain : Bool
  world : ℕ → P.World
  register : ℕ → Option P.RegisterError

def eraseAll {N V : Type} [DecidableEq N] (map : AList fun _ : N => V) (ids : List N) :
    AList fun _ : N => V :=
  ids.foldl (fun map id => map.erase id) map

section

variable (c : Call P) (r : StoreConfigReconciler P)

def removeUndesired : StoreConfigReconciler P × ℕ :=
  let removedApplied := r.applied.keys.filter (· ∉ c.desired)
  let rejected := eraseAll r.rejected removedApplied
  let removedRejected := rejected.keys.filter (· ∉ c.desired)
  (⟨eraseAll r.registry removedApplied, eraseAll r.applied removedApplied,
    eraseAll rejected removedRejected⟩, removedApplied.length + removedRejected.length)

/-- Materialization, and then the registry. -/
def Call.attempt (id : ℕ) (spec : VolumeStoreSpec P) :
    Except (VolumeApplyError P) P.Config :=
  match spec.materializeStoreConfig (c.world id), c.register id with
  | .error error, _ => .error (.prepare error)
  | .ok _, some error => .error (.register error)
  | .ok config, none => .ok config

def applyVolume (s : StoreConfigReconciler P × ReconcileReport P)
    (volume : (_ : ℕ) × VolumeStoreSpec P) : StoreConfigReconciler P × ReconcileReport P :=
  let (r, report) := s
  let ⟨id, spec⟩ := volume
  let rejectedSame := r.rejected.lookup id = some spec
  let appliedSame := r.applied.lookup id = some spec
  let forceReload := c.forceDefaultChain && spec.reloadOnForce
  if rejectedSame ∧ ¬forceReload then s
  else
    let rejected := if appliedSame ∧ ¬rejectedSame then r.rejected.erase id else r.rejected
    if appliedSame ∧ ¬rejectedSame ∧ ¬forceReload then
      (⟨r.registry, r.applied, rejected⟩, { report with unchanged := report.unchanged + 1 })
    else
      match c.attempt id spec with
      | .ok config =>
        (⟨r.registry.insert id config, r.applied.insert id spec, rejected.erase id⟩,
          { report with
            replaced := report.replaced + if id ∈ r.applied then 1 else 0
            added := report.added + if id ∈ r.applied then 0 else 1 })
      | .error error =>
        (⟨r.registry, r.applied, rejected.insert id spec⟩,
          { report with failures := report.failures ++
              [⟨id, if id ∈ r.applied then .stale else .unavailable, error⟩] })

/-- The two removals and the loop over the desired volumes. -/
def applyAll : StoreConfigReconciler P × ReconcileReport P :=
  c.desired.entries.foldl (applyVolume c)
    ((removeUndesired c r).1,
      ⟨0, (removeUndesired c r).2, 0, 0, c.desired.keys.length, 0, 0, 0, []⟩)

def applyDesired : StoreConfigReconciler P × ReconcileReport P :=
  let (r, report) := applyAll c r
  (r, { report with
    loaded := r.applied.keys.length
    stale := r.rejected.keys.countP (· ∈ r.applied)
    unavailable := r.rejected.keys.countP (· ∉ r.applied) })

end

def run (calls : List (Call P)) : StoreConfigReconciler P :=
  calls.foldl (fun r c => (applyDesired c r).1) ⟨∅, ∅, ∅⟩

/-! ## One volume -/

/-- What the reconciler holds of one volume. -/
@[ext] structure Volume (P : Provider) where
  registration : Option P.Config
  applied : Option (VolumeStoreSpec P)
  rejected : Option (VolumeStoreSpec P)

def StoreConfigReconciler.volume (r : StoreConfigReconciler P) (id : ℕ) : Volume P :=
  ⟨r.registry.lookup id, r.applied.lookup id, r.rejected.lookup id⟩

/-- What becomes of a desired volume, from its own specification and attempt alone. -/
def Volume.next (v : Volume P) (forceReload : Bool) (spec : VolumeStoreSpec P)
    (attempt : Except (VolumeApplyError P) P.Config) : Volume P :=
  if v.rejected = some spec ∧ ¬forceReload then v
  else if v.applied = some spec ∧ ¬forceReload then { v with rejected := none }
  else
    match attempt with
    | .ok config => ⟨some config, some spec, none⟩
    | .error _ => { v with rejected := some spec }

def Call.next (c : Call P) (v : Volume P) (id : ℕ) (spec : VolumeStoreSpec P) : Volume P :=
  v.next (c.forceDefaultChain && spec.reloadOnForce) spec (c.attempt id spec)

lemma lookup_eraseAll {N V : Type} [DecidableEq N] (map : AList fun _ : N => V) (ids : List N)
    (id : N) : (eraseAll map ids).lookup id = if id ∈ ids then none else map.lookup id := by
  induction ids generalizing map with
  | nil => simp [eraseAll]
  | cons f r ih =>
    rw [eraseAll, foldl_cons, ← eraseAll, ih]
    rcases eq_or_ne id f with rfl | hi
    · simp
    · simp [hi, lookup_erase_ne hi]

lemma lookup_eraseKeys {V : Type} (map : VolumeMap V) (p : ℕ → Bool) (id : ℕ) :
    (eraseAll map (map.keys.filter p)).lookup id = if p id then none else map.lookup id := by
  rw [lookup_eraseAll]
  by_cases hm : id ∈ map
  · simp [← AList.mem_keys, hm]
  · simp [← AList.mem_keys, hm, AList.lookup_eq_none.mpr hm]

variable {c : Call P} {r : StoreConfigReconciler P}

open StoreConfigReconciler

lemma removeUndesired_volume (h : ∀ id, r.applied.lookup id = none → r.registry.lookup id = none)
    (id : ℕ) : (removeUndesired c r).1.volume id =
      if id ∈ c.desired then r.volume id else ⟨none, none, none⟩ := by
  simp only [removeUndesired, volume, lookup_eraseKeys]
  by_cases hd : id ∈ c.desired
  · simp [lookup_eraseAll, hd]
  · by_cases ha : id ∈ r.applied
    · simp [lookup_eraseAll, ← AList.mem_keys, hd, ha]
    · simp [lookup_eraseAll, hd, h id (lookup_eq_none.mpr ha)]

lemma applyVolume_spec (report : ReconcileReport P) (id o : ℕ) (spec : VolumeStoreSpec P) :
    (applyVolume c (r, report) ⟨id, spec⟩).1.volume o =
        (if o = id then c.next (r.volume id) id spec else r.volume o) ∧
      (applyVolume c (r, report) ⟨id, spec⟩).2.desired = report.desired := by
  simp only [applyVolume, Call.next, Volume.next, volume]
  generalize c.attempt id spec = attempt
  generalize (c.forceDefaultChain && spec.reloadOnForce) = force
  -- the cases of the two comparisons, of the flag and of the attempt
  by_cases hr : r.rejected.lookup id = some spec <;> by_cases ha : r.applied.lookup id = some spec
    <;> cases force <;> cases attempt <;> rcases eq_or_ne o id with rfl | ho <;> simp [*]

lemma foldl_applyVolume (vs : List ((_ : ℕ) × VolumeStoreSpec P)) (hn : vs.NodupKeys)
    (s : StoreConfigReconciler P × ReconcileReport P) (id : ℕ) :
    (vs.foldl (applyVolume c) s).1.volume id = (match vs.dlookup id with
        | some spec => c.next (s.1.volume id) id spec | none => s.1.volume id) ∧
      (vs.foldl (applyVolume c) s).2.desired = s.2.desired := by
  induction vs generalizing s with
  | nil => exact ⟨rfl, rfl⟩
  | cons v rest ih =>
    obtain ⟨hv, hr⟩ := nodupKeys_cons.mp hn
    obtain ⟨ha, hd⟩ := applyVolume_spec (r := s.1) (c := c) s.2 v.1 id v.2
    rw [foldl_cons, (ih hr _).1, (ih hr _).2, ha]
    refine ⟨?_, hd⟩
    rcases eq_or_ne id v.1 with rfl | hi
    · rw [dlookup_eq_none.mpr hv, dlookup_cons_eq, if_pos rfl]
    · rw [dlookup_cons_ne _ _ hi, if_neg hi]

/-! ## Whole histories -/

/-- The registration is one of the applied specification's own. -/
def Volume.Registered (v : Volume P) : Prop :=
  match v.applied with
  | none => v.registration = none
  | some spec => ∃ world config, spec.materializeStoreConfig world = .ok config ∧
      v.registration = some config

/-- What a call leaves of the volumes that `before` has. -/
structure Reconciled (c : Call P) (before after : StoreConfigReconciler P)
    (report : ReconcileReport P) : Prop where
  registered : ∀ id, (after.volume id).Registered
  settled : ∀ id spec, c.desired.lookup id = some spec →
    (after.volume id).applied = some spec ∧ (after.volume id).rejected = none ∨
      (after.volume id).rejected = some spec
  dropped : ∀ id, c.desired.lookup id = none → after.volume id = ⟨none, none, none⟩
  /-- A volume depends on no other volume's attempt. -/
  separate : ∀ id spec, c.desired.lookup id = some spec →
    after.volume id = c.next (before.volume id) id spec
  lastGood : ∀ id spec error, c.desired.lookup id = some spec →
    c.attempt id spec = .error error →
      (after.volume id).registration = (before.volume id).registration ∧
        (after.volume id).applied = (before.volume id).applied
  notRetried : ∀ id spec, c.desired.lookup id = some spec →
    (before.volume id).rejected = some spec →
      ¬(c.forceDefaultChain ∧ spec.reloadOnForce) → after.volume id = before.volume id
  desired : report.desired = c.desired.keys.length
  available : report.desired = report.loaded + report.unavailable
  stale : report.stale = (after.rejected.keys.filter (· ∈ after.applied)).length

lemma attempt_eq_ok {id : ℕ} {spec : VolumeStoreSpec P} {config : P.Config}
    (h : c.attempt id spec = .ok config) :
    spec.materializeStoreConfig (c.world id) = .ok config := by
  unfold Call.attempt at h
  split at h <;> simp_all

lemma Volume.Registered.next {v : Volume P} (h : v.Registered) (id : ℕ)
    (spec : VolumeStoreSpec P) : (c.next v id spec).Registered := by
  unfold Call.next Volume.next
  split_ifs
  · exact h
  · exact h
  · cases ha : c.attempt id spec with
    | error error => exact h
    | ok config => exact ⟨c.world id, config, attempt_eq_ok ha, rfl⟩

lemma applyAll_spec (h : ∀ id, (r.volume id).Registered) (id : ℕ) : (applyAll c r).1.volume id =
        (match c.desired.lookup id with
        | some spec => c.next (r.volume id) id spec
        | none => ⟨none, none, none⟩) ∧
      (applyAll c r).2.desired = c.desired.keys.length := by
  have hr : ∀ id, r.applied.lookup id = none → r.registry.lookup id = none := fun id ha => by
    have hi := h id
    rwa [volume, ha] at hi
  refine ⟨(foldl_applyVolume _ c.desired.nodupKeys _ id).1.trans ?_,
    (foldl_applyVolume _ c.desired.nodupKeys _ id).2⟩
  rw [← AList.lookup, removeUndesired_volume hr]
  cases hd : c.desired.lookup id with
  | none => exact if_neg (lookup_eq_none.mp hd)
  | some spec => rw [if_pos (lookup_isSome.mp (by simp [hd]))]

section

variable {after : StoreConfigReconciler P}
  (hs : ∀ id spec, c.desired.lookup id = some spec → after.volume id = c.next (r.volume id) id spec)

include hs

lemma settled_of_next {id : ℕ} {spec : VolumeStoreSpec P} (hd : c.desired.lookup id = some spec) :
    (after.volume id).applied = some spec ∧ (after.volume id).rejected = none ∨
      (after.volume id).rejected = some spec := by
  rw [hs id spec hd]
  unfold Call.next Volume.next
  split_ifs with hr ha
  · exact .inr hr.1
  · exact .inl ⟨ha.1, rfl⟩
  · split
    · exact .inl ⟨rfl, rfl⟩
    · exact .inr rfl

/-- A desired volume is applied or only rejected. -/
lemma keys_perm (hn : ∀ id, c.desired.lookup id = none → after.volume id = ⟨none, none, none⟩) :
    c.desired.keys ~ after.applied.keys ++ after.rejected.keys.filter (· ∉ after.applied) := by
  have hd : ∀ id, id ∈ c.desired ↔ id ∈ after.applied ∨ id ∈ after.rejected := by
    intro id
    simp only [← lookup_isSome]
    cases hl : c.desired.lookup id with
    | none => simp_all [volume]
    | some spec =>
      rcases settled_of_next hs hl with ⟨ha, -⟩ | hr
      · change after.applied.lookup id = some spec at ha
        simp [ha]
      · change after.rejected.lookup id = some spec at hr
        simp [hr]
  refine (perm_ext_iff_of_nodup c.desired.keys_nodup (nodup_append.mpr
    ⟨after.applied.keys_nodup, after.rejected.keys_nodup.filter _, ?_⟩)).mpr fun id => ?_
  · rintro id ha o ho rfl
    simp_all [← AList.mem_keys]
  · rw [← AList.mem_keys, hd, mem_append, mem_filter, ← AList.mem_keys, ← AList.mem_keys]
    by_cases ha : id ∈ after.applied <;> simp [ha]

end

lemma applyDesired_reconciled (h : ∀ id, (r.volume id).Registered) :
    Reconciled c r (applyAll c r).1 (applyDesired c r).2 := by
  have hs : ∀ id spec, c.desired.lookup id = some spec →
      (applyAll c r).1.volume id = c.next (r.volume id) id spec := fun id spec hd => by
    rw [(applyAll_spec h id).1, hd]
  have hn : ∀ id, c.desired.lookup id = none →
      (applyAll c r).1.volume id = ⟨none, none, none⟩ := fun id hd => by
    rw [(applyAll_spec h id).1, hd]
  refine ⟨fun id => ?_, fun id spec => settled_of_next hs, hn, hs, fun id spec err hd ha => ?_,
    fun id spec hd hr hf => ?_, (applyAll_spec h 0).2, ?_, countP_eq_length_filter⟩
  · cases hd : c.desired.lookup id with
    | none =>
      rw [hn id hd]
      rfl
    | some spec =>
      rw [hs id spec hd]
      exact (h id).next id spec
  · rw [hs id spec hd, Call.next, ha]
    unfold Volume.next
    split_ifs <;> exact ⟨rfl, rfl⟩
  · rw [hs id spec hd]
    exact if_pos ⟨hr, by simpa using hf⟩
  · have hl := (keys_perm hs hn).length_eq
    rw [length_append, ← countP_eq_length_filter] at hl
    exact (applyAll_spec h 0).2.trans hl

lemma run_registered (cs : List (Call P)) (id : ℕ) : ((run cs).volume id).Registered := by
  induction cs using reverseRecOn generalizing id with
  | nil => rfl
  | append_singleton cs l ih =>
    rw [run, foldl_append]
    exact (applyDesired_reconciled ih).registered id

/-- After any calls, the next one keeps the last working store of every volume. -/
theorem run_reconciled (calls : List (Call P)) (c : Call P) :
    Reconciled c (run calls) (applyDesired c (run calls)).1 (applyDesired c (run calls)).2 :=
  applyDesired_reconciled (run_registered calls)

/-- Another call for the same volumes changes nothing unless it is forced. -/
theorem run_idempotent (calls : List (Call P)) (c : Call P) (world : ℕ → P.World)
    (register : ℕ → Option P.RegisterError) (id : ℕ) :
    (applyDesired ⟨c.desired, false, world, register⟩ (applyDesired c (run calls)).1).1.volume id =
      (applyDesired c (run calls)).1.volume id := by
  have h := applyDesired_reconciled (c := c) (run_registered calls)
  have hn := applyDesired_reconciled (c := ⟨c.desired, false, world, register⟩) h.registered
  cases hd : c.desired.lookup id with
  | none => exact (hn.dropped id hd).trans (h.dropped id hd).symm
  | some spec =>
    refine (hn.separate id spec hd).trans ?_
    rcases h.settled id spec hd with ⟨ha, hj⟩ | hj
    · exact (if_neg (by simp [hj])).trans ((if_pos ⟨ha, by simp⟩).trans (by rw [← hj]; rfl))
    · exact if_pos ⟨hj, by simp⟩

end LagoDB.StoreReconciler
