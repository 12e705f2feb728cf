import LagoDB.ExceptLoop
import Mathlib.Algebra.Group.Int.Defs
import Mathlib.Algebra.Group.Nat.Defs
import Mathlib.Data.List.AList
import Mathlib.Order.Nat

/-!
# The lifecycle of storage volumes

Volumes are created bound to a tablespace, retire with a deadline and are swept when it has
passed. Every mutation is checked again before the snapshot is written.
-/
namespace LagoDB.StorageVolumes

open List AList

/-- Locations and credentials as the snapshot uses them. -/
structure Provider where
  Location : Type
  Credential : Type
  [locationEq : DecidableEq Location]
  [credentialEq : DecidableEq Credential]
  scheme : Location → List Char
  bucket : Location → List Char
  configuredRootPrefix : Location → List Char
  validate : Location → Bool
  validateFor : Credential → Location → Bool
  -- the store configuration and bucket checks of `validate_for_persistence`
  storeConfigValid : Location → Credential → Bool

attribute [instance] Provider.locationEq Provider.credentialEq

inductive StorageVolumeLifecycle where
  | bound (tablespaceOid : ℕ)
  | retiring (formerTablespaceOid : ℕ) (markedAtMs purgeAfterMs : ℤ)
  deriving DecidableEq

structure StorageVolumeConfig (P : Provider) where
  id : ℕ
  createdAtMs : ℤ
  location : P.Location
  credential : P.Credential
  lifecycle : StorageVolumeLifecycle

structure StorageVolumeSnapshot (P : Provider) where
  formatVersion : ℕ
  nextVolumeId : ℕ
  volumes : AList fun _ : String => StorageVolumeConfig P

inductive SnapshotValidationError where
  | unsupportedFormat (version : ℕ)
  | invalidNextVolumeId
  | invalidCreatedAt (id : ℕ)
  | invalidLocation (id : ℕ)
  | invalidCredential (id : ℕ)
  | duplicateId (id : ℕ)
  | idNotBelowNext (id : ℕ)
  | invalidTablespaceOid (id : ℕ)
  | duplicateBoundTablespace (oid : ℕ)
  | invalidRetirementMark (id : ℕ)
  | invalidRetirementPurge (id : ℕ)

inductive StorageVolumeError where
  | invalidCredential
  | notFound (name : String)
  | notFoundId (id : ℕ)
  | nameConflict (name : String)
  | tablespaceAlreadyBound (oid : ℕ)
  | alreadyBound (oid : ℕ)
  | notBound
  | invalidTablespaceOid
  | lifecycleOperation (operation : String)
  | idExhausted
  | timestampOverflow
  | invalidSnapshot (error : SnapshotValidationError)

/-- The result of a mutation and the snapshot it leaves. -/
abbrev Mutated (P : Provider) := Except StorageVolumeError Bool × StorageVolumeSnapshot P

/-- `InvalidOid`, `DEFAULTTABLESPACE_OID` and `GLOBALTABLESPACE_OID`. -/
def systemOids : List ℕ := [0, 1663, 1664]

variable {P : Provider} (location : P.Location)

def validateForPersistence (credential : P.Credential) : Bool :=
  P.validateFor credential location && P.storeConfigValid location credential

/-! ## Compact ids -/

def crockfordBase32 : List Char := "0123456789abcdefghjkmnpqrstvwxyz".toList

def toCompactString (value : ℕ) : List Char :=
  if value / 32 = 0 then [crockfordBase32.getD (value % 32) '0']
  else toCompactString (value / 32) ++ [crockfordBase32.getD (value % 32) '0']

def effectiveRootForCompactId (compactId : List Char) : List Char :=
  if P.configuredRootPrefix location = [] then "lagodb/".toList ++ compactId
  else P.configuredRootPrefix location ++ "/lagodb/".toList ++ compactId

def effectiveLocationForCompactId (compactId : List Char) : List Char :=
  P.scheme location ++ "://".toList ++ P.bucket location ++ "/".toList ++
    effectiveRootForCompactId location compactId

/-! ## Mutations -/

namespace StorageVolumeLifecycle

def boundTablespaceOid : StorageVolumeLifecycle → Option ℕ
  | .bound oid => some oid
  | .retiring .. => none

def checkedAddMillis (time : ℤ) (millis : ℕ) : Option ℤ :=
  if 2 ^ 63 ≤ millis ∨ 2 ^ 63 ≤ time + millis then none else some (time + millis)

/-- The new lifecycle, or `none` when the volume already retires. -/
def retire (lifecycle : StorageVolumeLifecycle) (oid : ℕ) (createdAtMs markedAtMs : ℤ)
    (retirementGraceMs : ℕ) : Except StorageVolumeError (Option StorageVolumeLifecycle) :=
  if oid = 0 then .error .invalidTablespaceOid
  else
    match lifecycle with
    | .bound existing =>
      if existing = oid then
        match checkedAddMillis (max markedAtMs createdAtMs) retirementGraceMs with
        | some purge => .ok (some (.retiring oid (max markedAtMs createdAtMs) purge))
        | none => .error .timestampOverflow
      else .error (.alreadyBound existing)
    | .retiring former _ _ =>
      if former = oid then .ok none else .error (.lifecycleOperation "retired again")

end StorageVolumeLifecycle

open StorageVolumeLifecycle

namespace StorageVolumeSnapshot

variable (s : StorageVolumeSnapshot P)

def values : List (StorageVolumeConfig P) := s.volumes.entries.map (·.2)

def validateVolume (next : ℕ) (seen : List ℕ × List ℕ) (v : StorageVolumeConfig P) :
    Except SnapshotValidationError (List ℕ × List ℕ) :=
  if v.createdAtMs ≤ 0 then .error (.invalidCreatedAt v.id)
  else if ¬P.validate v.location then .error (.invalidLocation v.id)
  else if ¬P.validateFor v.credential v.location then .error (.invalidCredential v.id)
  else if v.id ∈ seen.1 then .error (.duplicateId v.id)
  else if next ≤ v.id then .error (.idNotBelowNext v.id)
  else
    match v.lifecycle with
    | .bound oid =>
      if oid ∈ systemOids then .error (.invalidTablespaceOid v.id)
      else if oid ∈ seen.2 then .error (.duplicateBoundTablespace oid)
      else .ok (v.id :: seen.1, oid :: seen.2)
    | .retiring former marked purge =>
      if former = 0 then .error (.invalidTablespaceOid v.id)
      else if marked < v.createdAtMs then .error (.invalidRetirementMark v.id)
      else if purge < marked then .error (.invalidRetirementPurge v.id)
      else .ok (v.id :: seen.1, seen.2)

def validate : Except SnapshotValidationError Unit :=
  if s.formatVersion ≠ 3 then .error (.unsupportedFormat s.formatVersion)
  else if s.nextVolumeId = 0 ∨ 2 ^ 63 < s.nextVolumeId then .error .invalidNextVolumeId
  else do
    let _ ← s.values.foldlM (validateVolume s.nextVolumeId) ([], [])
    pure ()

variable (name : String)

def create (location : P.Location) (credential : P.Credential) (oid : ℕ)
    (now : ℤ) : Except StorageVolumeError (ℕ × Bool) × StorageVolumeSnapshot P :=
  if ¬validateForPersistence location credential then (.error .invalidCredential, s)
  else
    match s.volumes.lookup name with
    | some existing =>
      if existing.location = location ∧ existing.credential = credential ∧
          existing.lifecycle.boundTablespaceOid = some oid then (.ok (existing.id, false), s)
      else (.error (.nameConflict name), s)
    | none =>
      if s.values.any fun volume => volume.lifecycle.boundTablespaceOid = some oid then
        (.error (.tablespaceAlreadyBound oid), s)
      else if 2 ^ 63 ≤ s.nextVolumeId then (.error .idExhausted, s)
      else
        (.ok (s.nextVolumeId, true), ⟨s.formatVersion, s.nextVolumeId + 1,
          s.volumes.insert name ⟨s.nextVolumeId, now, location, credential, .bound oid⟩⟩)

def rename (old new : String) : Mutated P :=
  if old = new then
    (if old ∈ s.volumes then .ok false else .error (.notFound old), s)
  else if new ∈ s.volumes then (.error (.nameConflict new), s)
  else
    match s.volumes.lookup old with
    | none => (.error (.notFound old), s)
    | some volume =>
      if volume.lifecycle.boundTablespaceOid = none then
        (.error (.lifecycleOperation "renamed"), s)
      else (.ok true, { s with volumes := (s.volumes.erase old).insert new volume })

def updateCredential (credential : P.Credential) :
    Mutated P :=
  match s.volumes.lookup name with
  | none => (.error (.notFound name), s)
  | some volume =>
    if ¬P.validateFor credential volume.location then (.error .invalidCredential, s)
    else if ¬validateForPersistence volume.location credential then (.error .invalidCredential, s)
    else if volume.credential = credential then (.ok false, s)
    else (.ok true, { s with volumes := s.volumes.insert name { volume with credential } })

def retireVolume (volume : StorageVolumeConfig P) (oid : ℕ) (markedAtMs : ℤ)
    (retirementGraceMs : ℕ) : Mutated P :=
  match volume.lifecycle.retire oid volume.createdAtMs markedAtMs retirementGraceMs with
  | .error error => (.error error, s)
  | .ok none => (.ok false, s)
  | .ok (some lifecycle) =>
    (.ok true, { s with volumes := s.volumes.insert name { volume with lifecycle } })

def retire (id oid : ℕ) (markedAtMs : ℤ) (retirementGraceMs : ℕ) :
    Mutated P :=
  match s.volumes.entries.find? fun volume => volume.2.id = id with
  | none => (.error (.notFoundId id), s)
  | some ⟨name, volume⟩ => s.retireVolume name volume oid markedAtMs retirementGraceMs

def repair (markedAtMs : ℤ) (retirementGraceMs : ℕ) :
    Mutated P :=
  match s.volumes.lookup name with
  | none => (.error (.notFound name), s)
  | some volume =>
    match volume.lifecycle.boundTablespaceOid with
    | none => (.error .notBound, s)
    | some oid => s.retireVolume name volume oid markedAtMs retirementGraceMs

def isDue (now : ℤ) (volume : StorageVolumeConfig P) : Bool :=
  match volume.lifecycle with
  | .retiring _ _ purge => purge ≤ now
  | .bound _ => false

def retain {V : Type} (volumes : AList fun _ : String => V) (keep : V → Bool) :
    AList fun _ : String => V :=
  ⟨volumes.entries.filter fun volume => keep volume.2,
    volumes.nodupKeys.sublist filter_sublist⟩

def sweepDue (now : ℤ) : Bool × StorageVolumeSnapshot P :=
  let volumes := retain s.volumes fun volume => !isDue now volume
  (volumes.entries.length ≠ s.volumes.entries.length, { s with volumes })

end StorageVolumeSnapshot

open StorageVolumeSnapshot

/-- The mutations with the inputs their callers give. -/
inductive Mutation (P : Provider) where
  | create (name : String) (location : {location // P.validate location})
      (credential : P.Credential) (oid : {oid // oid ∉ systemOids}) (now : {now : ℤ // 0 < now})
  | rename (old new : String)
  | updateCredential (name : String) (credential : P.Credential)
  | retire (id oid : ℕ) (markedAtMs : ℤ) (retirementGraceMs : ℕ)
  | repair (name : String) (markedAtMs : ℤ) (retirementGraceMs : ℕ)
  | sweepDue (now : ℤ)

namespace Mutation

def apply (s : StorageVolumeSnapshot P) : Mutation P → Mutated P
  | create name location credential oid now =>
    ((s.create name location credential oid now).1.map (·.2),
      (s.create name location credential oid now).2)
  | rename old new => s.rename old new
  | updateCredential name credential => s.updateCredential name credential
  | retire id oid marked grace => s.retire id oid marked grace
  | repair name marked grace => s.repair name marked grace
  | sweepDue now => (.ok (s.sweepDue now).1, (s.sweepDue now).2)

def createdVolume (s : StorageVolumeSnapshot P) : Mutation P → Option (ℕ × P.Location)
  | create name location credential oid now =>
    match (s.create name location credential oid now).1 with
    | .ok (id, true) => some (id, location)
    | _ => none
  | _ => none

end Mutation

/-- A mutation of the stored snapshot, checked before and after. -/
def updateLocked (stored : StorageVolumeSnapshot P) (m : Mutation P) : Mutated P :=
  match stored.validate with
  | .error error => (.error (.invalidSnapshot error), stored)
  | .ok () =>
    match m.apply stored with
    | (.error error, _) => (.error error, stored)
    | (.ok false, _) => (.ok false, stored)
    | (.ok true, s) =>
      match s.validate with
      | .error error => (.error (.invalidSnapshot error), stored)
      | .ok () => (.ok true, s)

/-- The snapshot with all volumes created so far. -/
structure History (P : Provider) where
  snapshot : StorageVolumeSnapshot P
  created : List (ℕ × P.Location)

namespace History

def step (h : History P) (m : Mutation P) : History P :=
  ⟨(m.apply h.snapshot).2, h.created ++ (m.createdVolume h.snapshot).toList⟩

def run (mutations : List (Mutation P)) : History P :=
  mutations.foldl step ⟨⟨3, 1, ∅⟩, []⟩

end History

/-! ## Effects -/

structure VolumeOk (v : StorageVolumeConfig P) : Prop where
  created : 0 < v.createdAtMs
  location : P.validate v.location
  credential : P.validateFor v.credential v.location
  lifecycle : match v.lifecycle with
    | .bound oid => oid ∉ systemOids
    | .retiring former marked purge => former ≠ 0 ∧ v.createdAtMs ≤ marked ∧ marked ≤ purge

/-- A volume keeps its id and location, and its lifecycle once it retires. -/
structure Evolves (v w : StorageVolumeConfig P) : Prop where
  id : w.id = v.id
  location : w.location = v.location
  lifecycle : w.lifecycle = v.lifecycle ∨
    v.lifecycle.boundTablespaceOid ≠ none ∧ w.lifecycle.boundTablespaceOid = none
  ok : VolumeOk v → VolumeOk w

variable {v w : StorageVolumeConfig P} {s : StorageVolumeSnapshot P} {m : Mutation P}
  {r : Mutated P} {c : Option (ℕ × P.Location)} {n : String}

lemma Evolves.refl (v : StorageVolumeConfig P) : Evolves v v := ⟨rfl, rfl, .inl rfl, fun h => h⟩

lemma Evolves.retired (h : Evolves v w) (hv : v.lifecycle.boundTablespaceOid = none) :
    w.lifecycle = v.lifecycle :=
  h.lifecycle.resolve_right fun hl => hl.1 hv

lemma retire_evolves {l : StorageVolumeLifecycle} {o g : ℕ} {m : ℤ}
    (h : v.lifecycle.retire o v.createdAtMs m g = .ok (some l)) :
    Evolves v { v with lifecycle := l } := by
  unfold StorageVolumeLifecycle.retire at h
  split_ifs at h with h0
  split at h
  next e hb =>
    split_ifs at h with he
    split at h
    next p hp =>
      cases h
      refine ⟨rfl, rfl, .inr ⟨?_, rfl⟩, fun hv => ⟨hv.1, hv.2, hv.3, h0, Int.le_max_right _ _, ?_⟩⟩
      · rw [hb]
        exact Option.some_ne_none _
      · unfold checkedAddMillis at hp
        split_ifs at hp
        cases hp
        omega
    next => cases h
  next => split_ifs at h; cases h

/-- What a mutation does to the volumes, its answer included. -/
inductive Effect (m : Mutation P) (s : StorageVolumeSnapshot P) :
    Mutated P → Option (ℕ × P.Location) → Prop
  | same (r : Except StorageVolumeError Bool) (hr : r ≠ .ok true) : Effect m s (r, s) none
  | created {volumes v oid} (ht : (volumes.entries.map (·.2)).Perm (v :: s.values))
      (hv : v.lifecycle = .bound oid) (hid : v.id = s.nextVolumeId) (hok : VolumeOk v)
      (hu : ∀ w ∈ s.values, w.lifecycle.boundTablespaceOid ≠ some oid)
      (hmax : s.nextVolumeId < 2 ^ 63) :
      Effect m s (.ok true, ⟨s.formatVersion, s.nextVolumeId + 1, volumes⟩)
        (some (v.id, v.location))
  | changed {volumes v w l} (hs : s.values.Perm (v :: l))
      (ht : (volumes.entries.map (·.2)).Perm (w :: l)) (he : Evolves v w) :
      Effect m s (.ok true, { s with volumes }) none
  | swept {now} (hm : m = .sweepDue now) : Effect m s (.ok true, (s.sweepDue now).2) none

lemma values_erase (hv : s.volumes.lookup n = some v) :
    s.values.Perm (v :: (s.volumes.erase n).entries.map (·.2)) := by
  have hm : n ∈ s.volumes := lookup_isSome.mp (by rw [hv]; rfl)
  obtain ⟨w, l₁, l₂, -, hl, hk⟩ := exists_of_kerase (mem_keys.mp hm)
  have hw : ⟨n, w⟩ ∈ s.volumes.entries := hl ▸ by simp
  cases (mem_lookup_iff.mpr hw).symm.trans hv
  have he : (s.volumes.erase n).entries = l₁ ++ l₂ := hk
  rw [values, he, hl]
  exact perm_middle.map _

lemma retireVolume_effect (hv : s.volumes.lookup n = some v) (o : ℕ) (marked : ℤ) (g : ℕ) :
    Effect m s (s.retireVolume n v o marked g) none := by
  unfold retireVolume
  split
  next => exact .same _ nofun
  next => exact .same _ nofun
  next l hl => exact .changed (values_erase hv) (.refl _) (retire_evolves hl)

lemma create_effect (name : String) (l : {l // P.validate l}) (c : P.Credential)
    (o : {o // o ∉ systemOids}) (now : {now : ℤ // 0 < now}) :
    Effect (.create name l c o now) s ((Mutation.create name l c o now).apply s)
      ((Mutation.create name l c o now).createdVolume s) := by
  simp only [Mutation.apply, Mutation.createdVolume, create]
  cases hn : s.volumes.lookup name with
  | some v => dsimp only; split_ifs <;> exact .same _ nofun
  | none =>
    split_ifs with hp hb hm
    · exact .same _ nofun
    · exact .same _ nofun
    · refine .created (v := ⟨s.nextVolumeId, now, l, c, .bound o⟩) ?_ rfl rfl
        ⟨now.2, l.2, (Bool.and_eq_true_iff.mp hp).1, o.2⟩
        (fun w hw hb' => hb (any_eq_true.mpr ⟨w, hw, decide_eq_true hb'⟩)) (Nat.lt_of_not_le hm)
      rw [entries_insert_of_notMem (lookup_eq_none.mp hn)]
      rfl
    · exact .same _ nofun

lemma rename_effect (o new : String) : Effect m s (s.rename o new) none := by
  unfold rename
  split_ifs with ho hm hn
  · exact .same _ nofun
  · exact .same _ nofun
  · exact .same _ nofun
  · split
    next => exact .same _ nofun
    next v hv =>
      split_ifs with hb
      · exact .same _ nofun
      · refine .changed (values_erase hv) ?_ (.refl v)
        rw [entries_insert_of_notMem fun h => hn (mem_erase.mp h).2]
        rfl

lemma Mutation.effect (m : Mutation P) (s : StorageVolumeSnapshot P) :
    Effect m s (m.apply s) (m.createdVolume s) := by
  cases m with
  | create name l c o now => exact create_effect name l c o now
  | rename d new => exact rename_effect d new
  | updateCredential name c =>
    simp only [apply, createdVolume, StorageVolumeSnapshot.updateCredential]
    split
    next => exact .same _ nofun
    next v hv =>
      split_ifs with hc
      · exact .same _ nofun
      · exact .changed (values_erase hv) (.refl _)
          ⟨rfl, rfl, .inl rfl, fun h => ⟨h.1, h.2, hc, h.4⟩⟩
      · exact .same _ nofun
      · exact .same _ nofun
  | retire id o marked g =>
    simp only [apply, createdVolume, StorageVolumeSnapshot.retire]
    split
    next => exact .same _ nofun
    next n v hf => exact retireVolume_effect (mem_lookup_iff.mpr (mem_of_find?_eq_some hf)) ..
  | repair name marked g =>
    simp only [apply, createdVolume, StorageVolumeSnapshot.repair]
    split
    next => exact .same _ nofun
    next v hv =>
      split
      next => exact .same _ nofun
      next => exact retireVolume_effect hv ..
  | sweepDue now =>
    by_cases hl : (s.sweepDue now).2.volumes.entries.length = s.volumes.entries.length
    · have hs : (s.sweepDue now).2 = s := congrArg (StorageVolumeSnapshot.mk _ _)
        (AList.ext (filter_eq_self.mpr (length_filter_eq_length_iff.mp hl)))
      have ht : (s.sweepDue now).1 = false := decide_eq_false (not_not.mpr hl)
      simp only [apply, createdVolume, hs, ht]
      exact .same _ nofun
    · have he : Effect (.sweepDue now) s (.ok true, (s.sweepDue now).2) none := .swept rfl
      have ht : (s.sweepDue now).1 = true := decide_eq_true hl
      rwa [← ht] at he

/-! ## Invariants -/

lemma mem_values_sweepDue {now : ℤ} :
    v ∈ (s.sweepDue now).2.values ↔ v ∈ s.values ∧ isDue now v = false := by
  simp only [values, sweepDue, retain, mem_map, mem_filter, Bool.not_eq_true']
  constructor
  · rintro ⟨e, ⟨he, hd⟩, rfl⟩
    exact ⟨⟨e, he, rfl⟩, hd⟩
  · rintro ⟨⟨e, he, rfl⟩, hd⟩
    exact ⟨e, ⟨he, hd⟩, rfl⟩

section

variable (he : Effect m s r c)

include he

lemma Effect.next : r.2.formatVersion = s.formatVersion ∧
    r.2.nextVolumeId = s.nextVolumeId + c.toList.length ∧
      (s.nextVolumeId ≤ 2 ^ 63 → r.2.nextVolumeId ≤ 2 ^ 63) ∧ ∀ v ∈ c, v.1 = s.nextVolumeId := by
  cases he with
  | created _ _ hid _ _ hm => exact ⟨rfl, rfl, fun _ => hm, fun v hv => by cases hv; exact hid⟩
  | same | changed | swept => exact ⟨rfl, rfl, fun h => h, nofun⟩

lemma Effect.failed {e : StorageVolumeError} (h : r.1 = .error e) : r.2 = s := by
  cases he with
  | same => rfl
  | created | changed | swept => cases h

/-- A volume after a mutation was there before or is the one created. -/
lemma Effect.origin (hw : w ∈ r.2.values) : (∃ v ∈ s.values, Evolves v w) ∨
      c = some (w.id, w.location) ∧ w.id = s.nextVolumeId ∧ VolumeOk w := by
  cases he with
  | same => exact .inl ⟨w, hw, .refl w⟩
  | created ht hv hid hok =>
    rcases mem_cons.mp (ht.subset hw) with rfl | hw
    · exact .inr ⟨rfl, hid, hok⟩
    · exact .inl ⟨w, hw, .refl w⟩
  | changed hs ht he =>
    rcases mem_cons.mp (ht.subset hw) with rfl | hw
    · exact .inl ⟨_, hs.symm.subset mem_cons_self, he⟩
    · exact .inl ⟨w, hs.symm.subset (mem_cons_of_mem _ hw), .refl w⟩
  | swept => exact .inl ⟨w, (mem_values_sweepDue.mp hw).1, .refl w⟩

/-- A retiring volume stays unless a sweep finds it due. -/
lemma Effect.stays (hv : v ∈ s.values) (hr : v.lifecycle.boundTablespaceOid = none)
    (hd : ∀ now, m = .sweepDue now → isDue now v = false) :
    ∃ w ∈ r.2.values, w.id = v.id ∧ w.lifecycle = v.lifecycle := by
  cases he with
  | same => exact ⟨v, hv, rfl, rfl⟩
  | created ht => exact ⟨v, ht.symm.subset (mem_cons_of_mem _ hv), rfl, rfl⟩
  | changed hs ht he =>
    rcases mem_cons.mp (hs.subset hv) with rfl | hv
    · exact ⟨_, ht.symm.subset mem_cons_self, he.id, he.retired hr⟩
    · exact ⟨v, ht.symm.subset (mem_cons_of_mem _ hv), rfl, rfl⟩
  | swept hm => exact ⟨v, mem_values_sweepDue.mpr ⟨hv, hd _ hm⟩, rfl, rfl⟩

structure Valid (s : StorageVolumeSnapshot P) : Prop where
  format : s.formatVersion = 3
  next : s.nextVolumeId ≠ 0
  max : s.nextVolumeId ≤ 2 ^ 63
  volume : ∀ v ∈ s.values, VolumeOk v ∧ v.id < s.nextVolumeId
  ids : (s.values.map (·.id)).Nodup
  oids : (s.values.filterMap (·.lifecycle.boundTablespaceOid)).Nodup

lemma Effect.unique (h : Valid s) : (r.2.values.map (·.id)).Nodup ∧
    (r.2.values.filterMap (·.lifecycle.boundTablespaceOid)).Nodup := by
  cases he with
  | same => exact ⟨h.ids, h.oids⟩
  | created ht hv hid hok hu =>
    refine ⟨(ht.map _).nodup_iff.mpr (nodup_cons.mpr ⟨fun hm => ?_, h.ids⟩),
      (ht.filterMap _).nodup_iff.mpr ?_⟩
    · obtain ⟨w, hw, hi⟩ := mem_map.mp hm
      exact Nat.ne_of_lt (h.volume w hw).2 (hi.trans hid)
    · rw [filterMap_cons, hv]
      refine nodup_cons.mpr ⟨fun hm => ?_, h.oids⟩
      obtain ⟨w, hw, ho⟩ := mem_filterMap.mp hm
      exact hu w hw ho
  | @changed _ v w l hs ht he =>
    have hi := (hs.map (·.id)).nodup_iff.mp h.ids
    have ho := (hs.filterMap (·.lifecycle.boundTablespaceOid)).nodup_iff.mp h.oids
    refine ⟨(ht.map _).nodup_iff.mpr ?_, (ht.filterMap _).nodup_iff.mpr (ho.sublist ?_)⟩
    · rwa [map_cons, he.id]
    · rcases he.lifecycle with hl | ⟨-, hl⟩
      · rw [filterMap_cons, filterMap_cons, hl]
      · rw [filterMap_cons, hl]
        exact (sublist_cons_self v l).filterMap _
  | @swept now =>
    have hs : (s.sweepDue now).2.values.Sublist s.values := filter_sublist.map _
    exact ⟨h.ids.sublist (hs.map _), h.oids.sublist (hs.filterMap _)⟩

lemma Effect.valid (h : Valid s) : Valid r.2 := by
  obtain ⟨hf, hn, hm, -⟩ := he.next
  obtain ⟨hi, ho⟩ := he.unique h
  refine ⟨hf.trans h.format, by have := h.next; omega, hm h.max, fun w hw => ?_, hi, ho⟩
  rcases he.origin hw with ⟨v, hv, hev⟩ | ⟨rfl, hid, hok⟩
  · obtain ⟨hok, hlt⟩ := h.volume v hv
    exact ⟨hev.ok hok, by rw [hev.id]; omega⟩
  · exact ⟨hok, hid.trans_lt (hn ▸ Nat.lt_succ_self _)⟩

lemma Effect.retired {id : ℕ} {l : StorageVolumeLifecycle} (hl : l.boundTablespaceOid = none)
    (h : id < s.nextVolumeId ∧ ∀ v ∈ s.values, v.id = id → v.lifecycle = l) :
    id < r.2.nextVolumeId ∧ ∀ v ∈ r.2.values, v.id = id → v.lifecycle = l := by
  refine ⟨by have := he.next; omega, fun w hw hid => ?_⟩
  rcases he.origin hw with ⟨v, hv, hev⟩ | ⟨-, hn, -⟩
  · have hvl := h.2 v hv (hev.id.symm.trans hid)
    rw [hev.retired (hvl ▸ hl), hvl]
  · omega

end

lemma validateVolume_ok {next : ℕ} {s : List ℕ × List ℕ} (hv : VolumeOk v) (hlt : v.id < next)
    (hi : v.id ∉ s.1) (ho : ∀ o, v.lifecycle.boundTablespaceOid = some o → o ∉ s.2) :
    validateVolume next s v = .ok (v.id :: s.1, v.lifecycle.boundTablespaceOid.toList ++ s.2) := by
  obtain ⟨hc, hlo, hcr, hl⟩ := hv
  rw [validateVolume, if_neg (Int.not_le.mpr hc), if_neg (not_not.mpr hlo),
    if_neg (not_not.mpr hcr), if_neg hi, if_neg hlt.not_ge]
  cases h : v.lifecycle with
  | bound o =>
    rw [h] at hl ho
    exact (if_neg hl).trans (if_neg (ho o rfl))
  | retiring f m p =>
    rw [h] at hl
    exact (if_neg hl.1).trans ((if_neg (Int.not_lt.mpr hl.2.1)).trans
      (if_neg (Int.not_lt.mpr hl.2.2)))

lemma validateVolume_fold {next : ℕ} {l : List (StorageVolumeConfig P)}
    (hv : ∀ v ∈ l, VolumeOk v ∧ v.id < next) (s : List ℕ × List ℕ)
    (hi : (l.map (·.id) ++ s.1).Nodup)
    (ho : (l.flatMap (·.lifecycle.boundTablespaceOid.toList) ++ s.2).Nodup) :
    ∃ s', l.foldlM (validateVolume next) s = .ok s' := by
  induction l generalizing s with
  | nil => exact ⟨s, rfl⟩
  | cons v l ih =>
    rw [flatMap_cons, append_assoc] at ho
    have hd := (nodup_append'.mp ho).2.2
    rw [foldlM_cons, validateVolume_ok (hv v mem_cons_self).1 (hv v mem_cons_self).2
      (fun hm => (nodup_cons.mp hi).1 (mem_append_right _ hm))
      fun o hb hm => hd (Option.mem_toList.mpr hb) (mem_append_right _ hm)]
    exact ih (fun w hw => hv w (mem_cons_of_mem _ hw)) _ (perm_middle.nodup_iff.mpr hi)
      ((perm_append_comm_assoc ..).nodup_iff.mpr ho)

lemma Valid.validate (h : Valid s) : s.validate = .ok () := by
  have ho := h.oids
  rw [filterMap_eq_flatMap_toList] at ho
  obtain ⟨seen, hs⟩ := validateVolume_fold h.volume ([], []) ((append_nil _).symm ▸ h.ids)
    ((append_nil _).symm ▸ ho)
  rw [StorageVolumeSnapshot.validate, if_neg (not_not.mpr h.format),
    if_neg (not_or.mpr ⟨h.next, h.max.not_gt⟩), hs]
  rfl

/-! ## Distinct locations -/

def compactValue (text : List Char) : ℕ :=
  text.foldl (fun value c => value * 32 + crockfordBase32.idxOf c) 0

lemma compactValue_toCompactString (id : ℕ) : compactValue (toCompactString id) = id := by
  have hd : ∀ i < 32, crockfordBase32.idxOf (crockfordBase32.getD i '0') = i := by decide
  have hm := hd (id % 32) (Nat.mod_lt _ (by decide))
  fun_induction toCompactString id with
  | case1 id h =>
    rw [compactValue, foldl_cons, foldl_nil, hm]
    omega
  | case2 id h ih =>
    have ih := ih (hd _ (Nat.mod_lt _ (by decide)))
    rw [compactValue] at ih ⊢
    rw [foldl_append, foldl_cons, foldl_nil, hm]
    omega

lemma notMem_toCompactString (id : ℕ) : '/' ∉ toCompactString id := by
  have hd : ∀ i < 32, '/' ≠ crockfordBase32.getD i '0' := by decide
  have hm (id : ℕ) := hd (id % 32) (Nat.mod_lt _ (by decide))
  fun_induction toCompactString id with
  | case1 id h => exact fun hs => hm id (mem_singleton.mp hs)
  | case2 id h ih =>
    exact fun hs => (mem_append.mp hs).elim ih fun hs => hm id (mem_singleton.mp hs)

def effectiveLocation (volume : ℕ × P.Location) : List Char :=
  effectiveLocationForCompactId volume.2 (toCompactString volume.1)

/-- The compact id stands after the last slash. -/
lemma effectiveLocation_eq (c : ℕ × P.Location) :
    ∃ b, effectiveLocation c = b ++ '/' :: toCompactString c.1 := by
  unfold effectiveLocation effectiveLocationForCompactId effectiveRootForCompactId
  split_ifs
  · exact ⟨P.scheme c.2 ++ "://".toList ++ P.bucket c.2 ++ "/lagodb".toList, by simp⟩
  · exact ⟨P.scheme c.2 ++ "://".toList ++ P.bucket c.2 ++ "/".toList ++
      P.configuredRootPrefix c.2 ++ "/lagodb".toList, by simp⟩

lemma effectiveLocation_inj {c c' : ℕ × P.Location}
    (h : effectiveLocation c = effectiveLocation c') : c.1 = c'.1 := by
  have hs (c : ℕ × P.Location) :
      (effectiveLocation c).reverse.takeWhile (· ≠ '/') = (toCompactString c.1).reverse := by
    obtain ⟨b, hb⟩ := effectiveLocation_eq c
    have hn : ∀ x ∈ (toCompactString c.1).reverse, decide (x ≠ '/') = true := fun x hx =>
      decide_eq_true fun h => notMem_toCompactString c.1 (h ▸ mem_reverse.mp hx)
    rw [hb, reverse_append, reverse_cons, append_assoc, takeWhile_append_of_pos hn]
    simp
  have hc := reverse_injective ((hs c).symm.trans (h ▸ hs c'))
  rw [← compactValue_toCompactString c.1, hc, compactValue_toCompactString]

/-! ## Histories -/

structure History.Inv (h : History P) : Prop where
  valid : Valid h.snapshot
  listed : ∀ v ∈ h.snapshot.values, (v.id, v.location) ∈ h.created
  created : h.created.map (·.1) = range' 1 h.created.length
  next : h.snapshot.nextVolumeId = h.created.length + 1

lemma History.Inv.step {h : History P} (hi : h.Inv) (m : Mutation P) : (h.step m).Inv := by
  have he := m.effect h.snapshot
  have hn : (m.apply h.snapshot).2.nextVolumeId =
      (h.created ++ (m.createdVolume h.snapshot).toList).length + 1 := by
    rw [he.next.2.1, hi.next, length_append]
    omega
  refine ⟨he.valid hi.valid, fun w hw => ?_, ?_, hn⟩
  · rcases he.origin hw with ⟨v, hv, hev⟩ | ⟨hc, -⟩
    · rw [hev.id, hev.location]
      exact mem_append_left _ (hi.listed v hv)
    · exact mem_append_right _ (Option.mem_toList.mpr hc)
  · rw [History.step, map_append, hi.created]
    cases hc : m.createdVolume h.snapshot with
    | none => simp
    | some v =>
      have hv := (he.next.2.2.2 v hc).trans hi.next
      simp [range'_concat, hv, Nat.add_comm]

lemma History.inv_run (ms : List (Mutation P)) : (run ms).Inv := by
  refine List.foldlRecOn ms _ ?_ fun h hi m _ => hi.step m
  exact ⟨⟨rfl, nofun, Nat.one_le_two_pow, nofun, nodup_nil, nodup_nil⟩, nofun, rfl, rfl⟩

lemma updateLocked_eq (h : Valid s) (m : Mutation P) : updateLocked s m = m.apply s := by
  have he := m.effect s
  have hv := (he.valid h).validate
  unfold updateLocked
  rw [h.validate]
  generalize m.apply s = r, m.createdVolume s = c at he hv
  cases he with
  | same r hr =>
    rcases r with error | _ | _
    · rfl
    · rfl
    · exact absurd rfl hr
  | created | changed | swept => simp only [hv]

structure Lifecycle (h : History P) : Prop where
  validates : h.snapshot.validate = .ok ()
  update : ∀ m : Mutation P, updateLocked h.snapshot m = m.apply h.snapshot
  failed : ∀ (m : Mutation P) error, (m.apply h.snapshot).1 = .error error →
    (m.apply h.snapshot).2 = h.snapshot
  ids : (h.created.map (·.1)).Nodup
  locations : (h.created.map effectiveLocation).Nodup
  listed : ∀ v ∈ h.snapshot.values, (v.id, v.location) ∈ h.created
  bound : (h.snapshot.values.filterMap (·.lifecycle.boundTablespaceOid)).Nodup
  kept : ∀ v ∈ h.snapshot.values, v.lifecycle.boundTablespaceOid ≠ none →
    ∀ now, v ∈ (h.snapshot.sweepDue now).2.values
  stays : ∀ v ∈ h.snapshot.values, v.lifecycle.boundTablespaceOid = none →
    ∀ m : Mutation P, (∀ now, m = .sweepDue now → isDue now v = false) →
      ∃ w ∈ (m.apply h.snapshot).2.values, w.id = v.id ∧ w.lifecycle = v.lifecycle
  retired : ∀ v ∈ h.snapshot.values, v.lifecycle.boundTablespaceOid = none →
    ∀ later : List (Mutation P), ∀ w ∈ (later.foldl History.step h).snapshot.values,
      w.id = v.id → w.lifecycle = v.lifecycle

/-- Volumes keep the snapshot valid, and neither ids nor locations are used twice. -/
theorem run_lifecycle (mutations : List (Mutation P)) : Lifecycle (History.run mutations) := by
  have hi := History.inv_run mutations
  have hn : ((History.run mutations).created.map (·.1)).Nodup := by
    rw [hi.created]
    exact nodup_range'
  refine ⟨hi.valid.validate, updateLocked_eq hi.valid, fun m error he => (m.effect _).failed he, hn,
    pairwise_map.mpr ((pairwise_map.mp hn).imp fun hne he => hne (effectiveLocation_inj he)),
    hi.listed, hi.valid.oids, fun v hv hb now => ?_,
    fun v hv hr m hd => (m.effect _).stays hv hr hd, fun v hv hr later => ?_⟩
  · refine mem_values_sweepDue.mpr ⟨hv, ?_⟩
    unfold isDue
    split
    next hl => exact absurd (congrArg boundTablespaceOid hl) hb
    next => rfl
  · refine (foldlRecOn later History.step ⟨(hi.valid.volume v hv).2, fun w hw hid => ?_⟩
      fun h hh m _ => (m.effect h.snapshot).retired hr hh).2
    rw [inj_on_of_nodup_map hi.valid.ids hw hv hid]

end LagoDB.StorageVolumes
