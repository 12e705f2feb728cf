import LagoDB.StorageResources
import Mathlib.Data.List.Nodup

/-!
# Optimistic metadata commit

Every committer runs the retry loop of `TableCommitCoordinator::commit` in its
own backend: read the latest location, materialize on it, compare and swap. The
logical check of `cas_update` and its physical tuple-version check are separate
steps, so other committers may run between them.

The catalog belongs to PostgreSQL. A tuple update is atomic and fails when the
tuple was replaced since it was scanned; `version` stands for the tuple id.
-/
namespace LagoDB.MetadataCommit

open ActionLog List StorageResources

abbrev Location := String

/-! ## Metadata materialization attempts -/

inductive Resolution where
  | promoted
  | discarded
  deriving DecidableEq

/-- The registry of one backend. `begun` and `resolved` are ghosts: the ids
handed out, and how each was taken back. -/
structure Ledger (R : Type) where
  registry : MetadataResourceRegistry R
  begun : List ℕ
  resolved : List (ℕ × Resolution)

namespace Ledger

variable {R : Type}

def beginAttempt (l : Ledger R) (nestLevel : ℕ) : Except IcebergError (ℕ × Ledger R) :=
  match l.registry.beginAttempt nestLevel with
  | (.error error, _) => .error error
  | (.ok id, registry) => .ok (id, { l with registry := registry, begun := l.begun ++ [id] })

def track (l : Ledger R) (resources : List R) : Ledger R :=
  { l with registry := l.registry.track resources }

/-- A failed call leaves the registry as it was. -/
def resolve {α : Type} (l : Ledger R) (id : ℕ) (resolution : Resolution) :
    Except IcebergError α × MetadataResourceRegistry R → Except IcebergError (Ledger R)
  | (.error error, _) => .error error
  | (.ok _, registry) =>
    .ok { l with registry := registry, resolved := l.resolved ++ [(id, resolution)] }

def promoteAttempt (l : Ledger R) (id : ℕ) : Except IcebergError (Ledger R) :=
  l.resolve id .promoted (l.registry.promoteAttempt id)

def discardAttempt (onAbort : R → Option R) (l : Ledger R) (id : ℕ) :
    Except IcebergError (Ledger R) :=
  l.resolve id .discarded (l.registry.discardAttempt onAbort id)

/-- `Drop` of an unresolved attempt: a failed discard is only reported. -/
def dropAttempt (onAbort : R → Option R) (l : Ledger R) (id : ℕ) : Ledger R :=
  match l.discardAttempt onAbort id with
  | .ok l' => l'
  | .error _ => l

end Ledger

/-! ## The catalog row -/

structure MetadataRow where
  metadataLocation : Option Location
  previousMetadataLocation : Option Location
  maintenanceDueAt : Option ℤ
  deriving DecidableEq

structure MetadataTuple where
  version : ℕ
  row : MetadataRow
  deriving DecidableEq

inductive MaintenanceScheduleUpdate where
  | preserve
  | scheduleNoLaterThan (dueAt : ℤ)
  | completeIfDueMatches (expected : Option ℤ)

/-- Whether `cas_update` advances the deadline, and the due column it writes. -/
def casDue (current : Option ℤ) : MaintenanceScheduleUpdate → Bool × Option ℤ
  | .preserve => (false, current)
  | .scheduleNoLaterThan proposed =>
    if current.all (fun due => decide (proposed < due)) then (true, some proposed)
    else (false, current)
  | .completeIfDueMatches expected =>
    if current = expected ∧ current.isSome then (false, none) else (false, current)

/-- The replacement tuple of `cas_update`, built from the scanned row. -/
def casRow (row : MetadataRow) (new base : Location) (schedule : MaintenanceScheduleUpdate) :
    MetadataRow :=
  ⟨some new, some base, (casDue row.maintenanceDueAt schedule).2⟩

/-- The replacement tuple of `finish_maintenance` touches the due column only. -/
def finishRow (row : MetadataRow) :
    MaintenanceScheduleUpdate → Except IcebergError MetadataRow
  | .completeIfDueMatches expected =>
    .ok (if row.maintenanceDueAt = expected then { row with maintenanceDueAt := none } else row)
  | .preserve => .ok row
  | .scheduleNoLaterThan _ =>
    .error (.invariantViolated "maintenance completion cannot schedule new maintenance work")

/-! ## The retry loop -/

structure CompletionToken where
  metadataLocation : Location
  maintenanceDueAt : Option ℤ

/-- What one call of `commit` is given: the plan's guard and exclusive action,
its write schedule, the retry limit and the transaction's nesting level. -/
structure Coordinator (R : Type) where
  relid : ℕ
  maxRetries : ℕ
  truncateGuard : Option Location
  exclusiveAction : Option CompletionToken
  writeSchedule : MaintenanceScheduleUpdate
  nestLevel : ℕ
  onAbort : R → Option R

variable {R : Type}

def Coordinator.schedule (c : Coordinator R) (latest : Location) : MaintenanceScheduleUpdate :=
  match c.exclusiveAction with
  | some token =>
    if token.metadataLocation = latest then .completeIfDueMatches token.maintenanceDueAt
    else .preserve
  | none => c.writeSchedule

/-- The statement a committer executes next. -/
inductive Phase where
  | loop
  | materialize (attempt : ℕ) (base : Location) (schedule : MaintenanceScheduleUpdate)
  | casScan (attempt : ℕ) (base : Location) (schedule : MaintenanceScheduleUpdate)
      (new : Location)
  | casWrite (attempt : ℕ) (base : Location) (schedule : MaintenanceScheduleUpdate)
      (new : Location) (old : MetadataTuple)
  | promote (attempt : ℕ) (advanced : Bool)
  | finishScan (base : Location) (schedule : MaintenanceScheduleUpdate)
  | finishWrite (old : MetadataTuple) (row : MetadataRow)
  | report (advanced : Bool)
  | done (result : Except IcebergError Bool)

namespace Phase

/-- The metadata attempt in scope. -/
def attempt : Phase → Option ℕ
  | .materialize attempt _ _ => some attempt
  | .casScan attempt _ _ _ => some attempt
  | .casWrite attempt _ _ _ _ => some attempt
  | .promote attempt _ => some attempt
  | _ => none

/-- The location a materialization runs on. -/
def materializing : Phase → Option Location
  | .materialize _ base _ => some base
  | _ => none

/-- The location the current attempt is built on, until it is published. -/
def base : Phase → Option Location
  | .materialize _ base _ => some base
  | .casScan _ base _ _ => some base
  | .casWrite _ base _ _ _ => some base
  | _ => none

/-- The location an attempt has written and not yet published. -/
def pending : Phase → Option Location
  | .casScan _ _ _ new => some new
  | .casWrite _ _ _ new _ => some new
  | _ => none

/-- The tuple a pending update was built from. -/
def held : Phase → Option MetadataTuple
  | .casWrite _ _ _ _ old => some old
  | .finishWrite old _ => some old
  | _ => none

/-- An attempt that is in the catalog but still to be promoted. -/
def publishing : Phase → Option ℕ
  | .promote attempt _ => some attempt
  | _ => none

/-- Past the last point from which the loop is entered again. -/
def settled : Phase → Bool
  | .promote _ _ => true
  | .report _ => true
  | .done _ => true
  | _ => false

end Phase

structure Committer (R : Type) where
  phase : Phase
  retries : ℕ
  ledger : Ledger R

/-- How the outside answers a statement: it succeeds, it fails (storage or
catalog errors), or materialization wrote files and a metadata location. -/
inductive Outcome (R : Type) where
  | ok
  | fail (error : IcebergError)
  | materialized (location : Location) (resources : List R)

/-- A tuple update; `published` names the attempt and the base it was built on. -/
structure CatalogWrite where
  row : MetadataRow
  published : Option (ℕ × Location)

namespace Committer

def stop (m : Committer R) (error : IcebergError) : Committer R :=
  { m with phase := .done (.error error) }

/-- An early return drops the attempt that is still in scope. -/
def abandon (c : Coordinator R) (m : Committer R) (attempt : ℕ) (error : IcebergError) :
    Committer R :=
  { m with
    phase := .done (.error error)
    ledger := m.ledger.dropAttempt c.onAbort attempt }

/-- `metadata_attempt.discard()?` followed by `next`. -/
def discardThen (c : Coordinator R) (m : Committer R) (attempt : ℕ) (next : Phase) :
    Committer R :=
  match m.ledger.discardAttempt c.onAbort attempt with
  | .ok ledger => { m with phase := next, ledger := ledger }
  | .error error => m.stop error

/-- From the head of the loop to the begun attempt. -/
def readLatest (c : Coordinator R) (catalog : Option MetadataTuple) (m : Committer R) :
    Committer R :=
  match catalog with
  | none => m.stop (.metadataCatalog (.notFound c.relid))
  | some tuple =>
    match tuple.row.metadataLocation with
    | none => m.stop .metadataLocationNull
    | some latest =>
      if c.truncateGuard.any (fun expected => decide (expected ≠ latest)) then
        m.stop (.truncateCommitConflict c.relid)
      else
        match m.ledger.beginAttempt c.nestLevel with
        | .error error => m.stop error
        | .ok (attempt, ledger) =>
          { m with
            phase := .materialize attempt latest (c.schedule latest)
            ledger := ledger }

def head (c : Coordinator R) (catalog : Option MetadataTuple) (m : Committer R)
    (outcome : Outcome R) : Committer R :=
  if c.maxRetries < m.retries then m.stop (.metadataCommitConflict c.relid c.maxRetries)
  else
    match outcome with
    | .fail error => { m with retries := m.retries + 1 }.stop error
    | _ => { m with retries := m.retries + 1 }.readLatest c catalog

/-- `tx.commit` returned `location`; an unchanged location publishes nothing. -/
def materialized (c : Coordinator R) (m : Committer R) (attempt : ℕ) (base : Location)
    (schedule : MaintenanceScheduleUpdate) (location : Location) (resources : List R) :
    Committer R :=
  let tracked := { m with ledger := m.ledger.track resources }
  if location = base then
    tracked.discardThen c attempt
      (if c.exclusiveAction.isSome then .finishScan base schedule else .report false)
  else { tracked with phase := .casScan attempt base schedule location }

/-- The scan of `cas_update` and its check of the location column. -/
def casScan (c : Coordinator R) (catalog : Option MetadataTuple) (m : Committer R) (attempt : ℕ)
    (base : Location) (schedule : MaintenanceScheduleUpdate) (new : Location) : Committer R :=
  match catalog with
  | none => m.abandon c attempt (.metadataCatalog (.notFound c.relid))
  | some tuple =>
    if tuple.row.metadataLocation ≠ some base then m.discardThen c attempt .loop
    else { m with phase := .casWrite attempt base schedule new tuple }

/-- The optimistic tuple update of `cas_update`. -/
def casWrite (c : Coordinator R) (catalog : Option MetadataTuple) (m : Committer R) (attempt : ℕ)
    (base : Location) (schedule : MaintenanceScheduleUpdate) (new : Location)
    (old : MetadataTuple) : Committer R × Option CatalogWrite :=
  if catalog.map (·.version) = some old.version then
    ({ m with phase := .promote attempt (casDue old.row.maintenanceDueAt schedule).1 },
      some ⟨casRow old.row new base schedule, some (attempt, base)⟩)
  else (m.discardThen c attempt .loop, none)

def promote (c : Coordinator R) (m : Committer R) (attempt : ℕ) (advanced : Bool) :
    Committer R :=
  match m.ledger.promoteAttempt attempt with
  | .ok ledger => { m with phase := .report advanced, ledger := ledger }
  | .error error => m.abandon c attempt error

def finishScan (c : Coordinator R) (catalog : Option MetadataTuple) (m : Committer R)
    (base : Location) (schedule : MaintenanceScheduleUpdate) : Committer R :=
  match catalog with
  | none => m.stop (.metadataCatalog (.notFound c.relid))
  | some tuple =>
    if tuple.row.metadataLocation ≠ some base then { m with phase := .loop }
    else
      match finishRow tuple.row schedule with
      | .error error => m.stop error
      | .ok row => { m with phase := .finishWrite tuple row }

def finishWrite (catalog : Option MetadataTuple) (m : Committer R) (old : MetadataTuple)
    (row : MetadataRow) : Committer R × Option CatalogWrite :=
  if catalog.map (·.version) = some old.version then
    ({ m with phase := .report false }, some ⟨row, none⟩)
  else ({ m with phase := .loop }, none)

/-- One statement of the loop. Only the two tuple updates write the catalog. -/
def advance (c : Coordinator R) (catalog : Option MetadataTuple) (m : Committer R)
    (outcome : Outcome R) : Committer R × Option CatalogWrite :=
  match m.phase, outcome with
  | .loop, outcome => (m.head c catalog outcome, none)
  | .materialize attempt base schedule, .materialized location resources =>
    (m.materialized c attempt base schedule location resources, none)
  | .materialize attempt _ _, .fail error => (m.abandon c attempt error, none)
  | .materialize _ _ _, .ok => (m, none)
  | .casScan attempt _ _ _, .fail error => (m.abandon c attempt error, none)
  | .casScan attempt base schedule new, _ =>
    (m.casScan c catalog attempt base schedule new, none)
  | .casWrite attempt _ _ _ _, .fail error => (m.abandon c attempt error, none)
  | .casWrite attempt base schedule new old, _ =>
    m.casWrite c catalog attempt base schedule new old
  | .promote attempt advanced, _ => (m.promote c attempt advanced, none)
  | .finishScan _ _, .fail error => (m.stop error, none)
  | .finishScan base schedule, _ => (m.finishScan c catalog base schedule, none)
  | .finishWrite _ _, .fail error => (m.stop error, none)
  | .finishWrite old row, _ => m.finishWrite catalog old row
  | .report _, .fail error => (m.stop error, none)
  | .report advanced, _ => ({ m with phase := .done (.ok advanced) }, none)
  | .done _, _ => (m, none)

end Committer

/-! ## All committers together -/

/-- A successful `cas_update` as the catalog saw it. -/
structure Publication (ι : Type) where
  owner : ι
  attempt : ℕ
  base : Location
  replaced : Option Location
  previous : Option Location
  location : Option Location

/-- `written` and `publications` are ghosts: every metadata location in use so
far, and the successful `cas_update` calls in catalog order. -/
structure System (ι R : Type) where
  catalog : Option MetadataTuple
  committers : ι → Committer R
  written : List Location
  publications : List (Publication ι)

variable (catalog : Option MetadataTuple)

def writeCatalog (write : Option CatalogWrite) :
    Option MetadataTuple :=
  match catalog, write with
  | some tuple, some write => some ⟨tuple.version + 1, write.row⟩
  | catalog, _ => catalog

def currentLocation : Option Location :=
  catalog.bind (·.row.metadataLocation)

variable {ι : Type}

def publicationOf (i : ι) (catalog : Option MetadataTuple) :
    Option CatalogWrite → List (Publication ι)
  | some ⟨row, some (attempt, base)⟩ =>
    [⟨i, attempt, base, currentLocation catalog, row.previousMetadataLocation,
      row.metadataLocation⟩]
  | _ => []

def Outcome.locations : Outcome R → List Location
  | .materialized location _ => [location]
  | _ => []

def System.commitStep [DecidableEq ι] (coordinators : ι → Coordinator R) (s : System ι R) (i : ι)
    (outcome : Outcome R) : System ι R :=
  let result := (s.committers i).advance (coordinators i) s.catalog outcome
  { catalog := writeCatalog s.catalog result.2
    committers := Function.update s.committers i result.1
    written := outcome.locations ++ s.written
    publications := s.publications ++ publicationOf i s.catalog result.2 }

/-- A materialization either keeps its base or writes a location nobody used. -/
def FreshOutcome (s : System ι R) (i : ι) (outcome : Outcome R) : Prop :=
  ∀ location ∈ outcome.locations,
    location ∉ s.written ∨ (s.committers i).phase.materializing = some location

instance (s : System ι R) (i : ι) (outcome : Outcome R) : Decidable (FreshOutcome s i outcome) :=
  inferInstanceAs (Decidable (∀ location ∈ outcome.locations, _))

inductive Step [DecidableEq ι] (coordinators : ι → Coordinator R) :
    System ι R → System ι R → Prop where
  | commit {s : System ι R} (i : ι) (outcome : Outcome R) (fresh : FreshOutcome s i outcome) :
      Step coordinators s (s.commitStep coordinators i outcome)
  /-- The maintenance scheduler replaces the tuple to move its deadline. -/
  | reschedule {s : System ι R} (tuple : MetadataTuple) (dueAt : Option ℤ)
      (current : s.catalog = some tuple) :
      Step coordinators s
        { s with
          catalog := some ⟨tuple.version + 1, { tuple.row with maintenanceDueAt := dueAt }⟩ }

/-- Nobody has entered the loop. A backend may have committed other tables
before, so its registry is arbitrary apart from having no active attempt. -/
structure Initial (s : System ι R) : Prop where
  phase : ∀ i, (s.committers i).phase = .loop
  retries : ∀ i, (s.committers i).retries = 0
  active : ∀ i, (s.committers i).ledger.registry.activeAttempt = none
  begun : ∀ i, (s.committers i).ledger.begun = []
  resolved : ∀ i, (s.committers i).ledger.resolved = []
  written : ∀ location ∈ currentLocation s.catalog, location ∈ s.written
  publications : s.publications = []

inductive Reachable [DecidableEq ι] (coordinators : ι → Coordinator R) (start : System ι R) :
    System ι R → Prop where
  | refl : Reachable coordinators start start
  | step {s s' : System ι R} (reached : Reachable coordinators start s)
      (next : Step coordinators s s') : Reachable coordinators start s'

/-! ## What the registry guarantees -/

namespace Ledger

/-- The ids handed out are those taken back and the active one, in order. -/
structure Valid (l : Ledger R) (current : Option ℕ) : Prop where
  active : l.registry.activeAttempt.map (·.id) = current
  begun : l.begun = l.resolved.map Prod.fst ++ current.toList
  increasing : l.begun.Pairwise (· < ·)
  below : ∀ id ∈ l.begun, id < l.registry.nextAttemptId

/-- The attempt `id` was taken back as `resolution`. -/
structure Resolves (l : Ledger R) (id : ℕ) (resolution : Resolution) (l' : Ledger R) : Prop where
  valid : l'.Valid none
  begun : l'.begun = l.begun
  resolved : l'.resolved = l.resolved ++ [(id, resolution)]

structure Begins (l : Ledger R) (id : ℕ) (l' : Ledger R) : Prop where
  valid : l'.Valid (some id)
  begun : l'.begun = l.begun ++ [id]
  resolved : l'.resolved = l.resolved

variable {l : Ledger R}

lemma Valid.track {c : Option ℕ} (h : l.Valid c) (rs : List R) : (l.track rs).Valid c := by
  refine ⟨?_, h.begun, h.increasing, h.below⟩
  rw [← h.active]
  simp [Ledger.track, MetadataResourceRegistry.track, Option.map_map, Function.comp_def]

variable {id : ℕ}

/-- A registry without an attempt, whose ids go on where they were. -/
lemma Valid.resolves (h : l.Valid (some id)) (resolution : Resolution)
    {r : MetadataResourceRegistry R} (ha : r.activeAttempt = none)
    (hn : r.nextAttemptId = l.registry.nextAttemptId) :
    l.Resolves id resolution
      { l with registry := r, resolved := l.resolved ++ [(id, resolution)] } := by
  refine ⟨⟨?_, ?_, h.increasing, ?_⟩, rfl, rfl⟩
  · rw [ha]
    rfl
  · simp [h.begun]
  · rw [hn]
    exact h.below

lemma Valid.discardAttempt (h : l.Valid (some id)) (o : R → Option R) :
    ∃ l', l.discardAttempt o id = .ok l' ∧ l.Resolves id .discarded l' := by
  obtain ⟨a, ha, rfl⟩ := Option.map_eq_some_iff.mp h.active
  simp only [Ledger.discardAttempt, MetadataResourceRegistry.discardAttempt,
    MetadataResourceRegistry.takeAttempt_active ha]
  exact ⟨_, rfl, h.resolves _ rfl rfl⟩

lemma Valid.promoteAttempt (h : l.Valid (some id)) :
    ∃ l', l.promoteAttempt id = .ok l' ∧ l.Resolves id .promoted l' := by
  obtain ⟨a, ha, rfl⟩ := Option.map_eq_some_iff.mp h.active
  simp only [Ledger.promoteAttempt, MetadataResourceRegistry.promoteAttempt,
    MetadataResourceRegistry.takeAttempt_active ha]
  exact ⟨_, rfl, h.resolves _ rfl rfl⟩

lemma Valid.dropAttempt (h : l.Valid (some id)) (o : R → Option R) :
    l.Resolves id .discarded (l.dropAttempt o id) := by
  obtain ⟨l', hd, hr⟩ := h.discardAttempt o
  simpa only [Ledger.dropAttempt, hd] using hr

lemma Valid.beginAttempt {l' : Ledger R} {level : ℕ} (h : l.Valid none)
    (hbe : l.beginAttempt level = .ok (id, l')) : l.Begins id l' := by
  unfold Ledger.beginAttempt MetadataResourceRegistry.beginAttempt at hbe
  split_ifs at hbe
  cases hbe
  refine ⟨⟨rfl, ?_, ?_, ?_⟩, rfl, rfl⟩
  · simpa using h.begun
  · refine pairwise_append.mpr ⟨h.increasing, pairwise_singleton _ _, ?_⟩
    intro a ha b hb
    rw [mem_singleton.mp hb]
    exact h.below a ha
  · intro a ha
    rcases mem_append.mp ha with ha | ha
    · exact (h.below a ha).trans (Nat.lt_succ_self _)
    · rw [mem_singleton.mp ha]
      exact Nat.lt_succ_self _

end Ledger

/-! ## What one statement can do -/

/-- Every statement of the loop, with the registry calls replaced by what they
guarantee. The last argument is the tuple update, if there is one. -/
inductive Transition (c : Coordinator R) (catalog : Option MetadataTuple) (outcome : Outcome R)
    (m : Committer R) : Committer R → Option CatalogWrite → Prop where
  | stutter : Transition c catalog outcome m m none
  | exhausted (hphase : m.phase = .loop) (hmax : c.maxRetries < m.retries) :
      Transition c catalog outcome m (m.stop (.metadataCommitConflict c.relid c.maxRetries)) none
  | refused (error : IcebergError) (hphase : m.phase = .loop) (hmax : m.retries ≤ c.maxRetries) :
      Transition c catalog outcome m
        { m with phase := .done (.error error), retries := m.retries + 1 } none
  | begun (tuple : MetadataTuple) (latest : Location) (attempt : ℕ) (ledger : Ledger R)
      (hphase : m.phase = .loop) (hmax : m.retries ≤ c.maxRetries)
      (hcatalog : catalog = some tuple) (hlatest : tuple.row.metadataLocation = some latest)
      (hguard : ∀ g ∈ c.truncateGuard, g = latest) (hbegin : m.ledger.Begins attempt ledger) :
      Transition c catalog outcome m
        ⟨.materialize attempt latest (c.schedule latest), m.retries + 1, ledger⟩ none
  | abandoned (attempt : ℕ) (error : IcebergError) (ledger : Ledger R)
      (hattempt : m.phase.attempt = some attempt) (hpublishing : m.phase.publishing = none)
      (hresolved : m.ledger.Resolves attempt .discarded ledger) :
      Transition c catalog outcome m
        { m with phase := .done (.error error), ledger := ledger } none
  | unchanged (attempt : ℕ) (next : Phase) (ledger : Ledger R)
      (hattempt : m.phase.attempt = some attempt) (hpublishing : m.phase.publishing = none)
      (hnext : (∃ base schedule, next = .finishScan base schedule) ∨ next = .report false)
      (hresolved : m.ledger.Resolves attempt .discarded ledger) :
      Transition c catalog outcome m { m with phase := next, ledger := ledger } none
  | materialized (attempt : ℕ) (base new : Location) (schedule : MaintenanceScheduleUpdate)
      (resources : List R) (hphase : m.phase = .materialize attempt base schedule)
      (hnew : new ∈ outcome.locations) (hne : new ≠ base) :
      Transition c catalog outcome m
        { m with
          phase := .casScan attempt base schedule new
          ledger := m.ledger.track resources } none
  | rebased (attempt : ℕ) (ledger : Ledger R) (hattempt : m.phase.attempt = some attempt)
      (hpublishing : m.phase.publishing = none)
      (hresolved : m.ledger.Resolves attempt .discarded ledger) :
      Transition c catalog outcome m { m with phase := .loop, ledger := ledger } none
  | scanned (attempt : ℕ) (base new : Location) (schedule : MaintenanceScheduleUpdate)
      (tuple : MetadataTuple) (hphase : m.phase = .casScan attempt base schedule new)
      (hcatalog : catalog = some tuple) (hbase : tuple.row.metadataLocation = some base) :
      Transition c catalog outcome m
        { m with phase := .casWrite attempt base schedule new tuple } none
  | published (attempt : ℕ) (base new : Location) (schedule : MaintenanceScheduleUpdate)
      (old tuple : MetadataTuple) (hphase : m.phase = .casWrite attempt base schedule new old)
      (hcatalog : catalog = some tuple) (hversion : old.version = tuple.version) :
      Transition c catalog outcome m
        { m with phase := .promote attempt (casDue old.row.maintenanceDueAt schedule).1 }
        (some ⟨casRow old.row new base schedule, some (attempt, base)⟩)
  | promoted (attempt : ℕ) (advanced : Bool) (ledger : Ledger R)
      (hphase : m.phase = .promote attempt advanced)
      (hresolved : m.ledger.Resolves attempt .promoted ledger) :
      Transition c catalog outcome m { m with phase := .report advanced, ledger := ledger } none
  | finishScanned (base : Location) (schedule : MaintenanceScheduleUpdate)
      (tuple : MetadataTuple) (row : MetadataRow) (hphase : m.phase = .finishScan base schedule)
      (hcatalog : catalog = some tuple) (hrow : finishRow tuple.row schedule = .ok row) :
      Transition c catalog outcome m { m with phase := .finishWrite tuple row } none
  | finishRebased (hattempt : m.phase.attempt = none) (hsettled : m.phase.settled = false) :
      Transition c catalog outcome m { m with phase := .loop } none
  | finishWritten (old tuple : MetadataTuple) (row : MetadataRow)
      (hphase : m.phase = .finishWrite old row) (hcatalog : catalog = some tuple)
      (hversion : old.version = tuple.version) :
      Transition c catalog outcome m { m with phase := .report false } (some ⟨row, none⟩)
  | closed (result : Except IcebergError Bool) (hattempt : m.phase.attempt = none) :
      Transition c catalog outcome m { m with phase := .done result } none

namespace Committer

variable {c : Coordinator R} {cat : Option MetadataTuple} {m : Committer R} {out : Outcome R}
  {att : ℕ}

lemma abandon_transition (err : IcebergError) (h : m.ledger.Valid m.phase.attempt)
    (ha : m.phase.attempt = some att) (hp : m.phase.publishing = none) :
    Transition c cat out m (m.abandon c att err) none := by
  rw [ha] at h
  exact .abandoned att err _ ha hp (h.dropAttempt c.onAbort)

lemma discardThen_eq (next : Phase) (h : m.ledger.Valid (some att)) :
    ∃ l, m.discardThen c att next = { m with phase := next, ledger := l } ∧
      m.ledger.Resolves att .discarded l := by
  obtain ⟨l, hd, hr⟩ := h.discardAttempt c.onAbort
  exact ⟨l, by simp only [discardThen, hd], hr⟩

lemma head_transition (out : Outcome R) (h : m.ledger.Valid m.phase.attempt)
    (hp : m.phase = .loop) : Transition c cat out m (m.head c cat out) none := by
  rw [hp] at h
  unfold head
  split_ifs with hmax
  · exact .exhausted hp hmax
  have hle := not_lt.mp hmax
  have hr : Transition c cat out m ({ m with retries := m.retries + 1 }.readLatest c cat) none := by
    unfold readLatest
    cases hc : cat with
    | none => exact .refused _ hp hle
    | some t =>
      cases hl : t.row.metadataLocation with
      | none => simp only [hl]; exact .refused _ hp hle
      | some l =>
        simp only [hl]
        split_ifs with hgu
        · exact .refused _ hp hle
        · cases hb : m.ledger.beginAttempt c.nestLevel with
          | error error => exact .refused _ hp hle
          | ok b =>
            refine .begun t l b.1 b.2 hp hle rfl hl ?_ (h.beginAttempt hb)
            intro g hg
            rw [Option.mem_def] at hg
            simpa [hg] using hgu
  cases out with
  | fail error => exact .refused error hp hle
  | ok | materialized => exact hr

variable {old : MetadataTuple}

lemma version_eq_some (h : cat.map (·.version) = some old.version) :
    ∃ t, cat = some t ∧ old.version = t.version := by
  obtain ⟨t, hc, hv⟩ := Option.map_eq_some_iff.mp h
  exact ⟨t, hc, hv.symm⟩

lemma discardThen_loop_transition (h : m.ledger.Valid m.phase.attempt)
    (ha : m.phase.attempt = some att) (hp : m.phase.publishing = none) :
    Transition c cat out m (m.discardThen c att .loop) none := by
  rw [ha] at h
  obtain ⟨l, heq, hr⟩ := discardThen_eq (c := c) .loop h
  rw [heq]
  exact .rebased att l ha hp hr

variable {base : Location} {s : MaintenanceScheduleUpdate}

section

variable (h : m.ledger.Valid m.phase.attempt)

include h

lemma materialized_transition (l : Location) (rs : List R)
    (hp : m.phase = .materialize att base s) :
    Transition c cat (.materialized l rs) m (m.materialized c att base s l rs) none := by
  have ha : m.phase.attempt = some att := by rw [hp]; rfl
  have hv : (m.ledger.track rs).Valid (some att) := by
    rw [ha] at h
    exact h.track rs
  unfold materialized
  split_ifs with hs he
  · obtain ⟨ledger, heq, hr⟩ := discardThen_eq (c := c)
      (m := { m with ledger := m.ledger.track rs }) (.finishScan base s) hv
    rw [heq]
    exact .unchanged att _ ledger ha (by rw [hp]; rfl) (.inl ⟨base, s, rfl⟩)
      ⟨hr.valid, hr.begun, hr.resolved⟩
  · obtain ⟨ledger, heq, hr⟩ := discardThen_eq (c := c)
      (m := { m with ledger := m.ledger.track rs }) (.report false) hv
    rw [heq]
    exact .unchanged att _ ledger ha (by rw [hp]; rfl) (.inr rfl) ⟨hr.valid, hr.begun, hr.resolved⟩
  · exact .materialized att base l s rs hp (mem_singleton.mpr rfl) hs

lemma casScan_transition {new : Location} (hph : m.phase = .casScan att base s new) :
    Transition c cat out m (m.casScan c cat att base s new) none := by
  have ha : m.phase.attempt = some att := by rw [hph]; rfl
  have hp : m.phase.publishing = none := by rw [hph]; rfl
  unfold casScan
  cases hc : cat with
  | none => exact abandon_transition _ h ha hp
  | some t =>
    dsimp only
    split_ifs with hb
    · exact discardThen_loop_transition h ha hp
    · exact .scanned att base new s t hph rfl (not_not.mp hb)

lemma casWrite_transition {new : Location} (hp : m.phase = .casWrite att base s new old) :
    Transition c cat out m (m.casWrite c cat att base s new old).1
      (m.casWrite c cat att base s new old).2 := by
  unfold casWrite
  split_ifs with hs
  · obtain ⟨t, hc, hv⟩ := version_eq_some hs
    exact .published att base new s old t hp hc hv
  · exact discardThen_loop_transition h (by rw [hp]; rfl) (by rw [hp]; rfl)

lemma promote_transition {a : Bool} (hp : m.phase = .promote att a) :
    Transition c cat out m (m.promote c att a) none := by
  rw [hp] at h
  obtain ⟨l, hpr, hr⟩ := Ledger.Valid.promoteAttempt h
  simp only [promote, hpr]
  exact .promoted att a l hp hr

end

lemma finishScan_transition (hp : m.phase = .finishScan base s) :
    Transition c cat out m (m.finishScan c cat base s) none := by
  have ha : m.phase.attempt = none := by rw [hp]; rfl
  unfold finishScan
  cases hc : cat with
  | none => exact .closed _ ha
  | some t =>
    dsimp only
    split_ifs with hb
    · exact .finishRebased ha (by rw [hp]; rfl)
    · cases hr : finishRow t.row s with
      | error error => exact .closed _ ha
      | ok row => exact .finishScanned base s t row hp rfl hr

lemma finishWrite_transition {row : MetadataRow} (hp : m.phase = .finishWrite old row) :
    Transition c cat out m (m.finishWrite cat old row).1 (m.finishWrite cat old row).2 := by
  unfold finishWrite
  split_ifs with hs
  · obtain ⟨t, hc, hv⟩ := version_eq_some hs
    exact .finishWritten old t row hp hc hv
  · exact .finishRebased (by rw [hp]; rfl) (by rw [hp]; rfl)

lemma advance_transition (out : Outcome R) (h : m.ledger.Valid m.phase.attempt) :
    Transition c cat out m (m.advance c cat out).1 (m.advance c cat out).2 := by
  unfold advance
  cases hp : m.phase with
  | loop => exact head_transition out h hp
  | materialize att base s =>
    cases out with
    | ok => exact .stutter
    | fail e => exact abandon_transition e h (by rw [hp]; rfl) (by rw [hp]; rfl)
    | materialized l r => exact materialized_transition h l r hp
  | casScan att base s new =>
    cases out with
    | fail e => exact abandon_transition e h (by rw [hp]; rfl) (by rw [hp]; rfl)
    | ok | materialized => exact casScan_transition h hp
  | casWrite att base s new old =>
    cases out with
    | fail e => exact abandon_transition e h (by rw [hp]; rfl) (by rw [hp]; rfl)
    | ok | materialized => exact casWrite_transition h hp
  | promote att a => exact promote_transition h hp
  | finishScan base s =>
    cases out with
    | fail e => exact .closed _ (by rw [hp]; rfl)
    | ok | materialized => exact finishScan_transition hp
  | finishWrite old row =>
    cases out with
    | fail e => exact .closed _ (by rw [hp]; rfl)
    | ok | materialized => exact finishWrite_transition hp
  | report a =>
    cases out with
    | fail | ok | materialized => exact .closed _ (by rw [hp]; rfl)
  | done re => exact .stutter

end Committer

end LagoDB.MetadataCommit
