import LagoDB.StorageResources

/-!
# The lifecycle of created storage resources

Files and directories a transaction creates are registered until their outcome is
known. A resource belongs to the subtransaction that created it or to the metadata
attempt that is running. Its removals may fail, and a failed one is tried again only
where the registry keeps the resource for it.
-/
namespace LagoDB.StorageResources

/-! ## Resources -/

inductive Removal where
  | unlinkFile (path : String)
  | removeDirAll (location : String)
  | deleteObject (location : String)
  deriving DecidableEq

namespace StorageResource

def abortRemovals : StorageResource → List Removal
  | .createdLocalFile path => [.unlinkFile path]
  | .createdTableDir location => [.removeDirAll location]
  | .objectFile location stagingPath .uploaded =>
    [.deleteObject location, .unlinkFile stagingPath]
  | .objectFile _ stagingPath .staged => [.unlinkFile stagingPath]

/-- `answers` says which removals succeed; something that is not there counts as
removed. -/
def isCleaned (answers : Removal → Bool) (resource : StorageResource) : Bool :=
  resource.abortRemovals.all answers

/-- The upload of one resource, if it is the object. -/
def markUploaded (location : String) : StorageResource → Option (Except String StorageResource)
  | .objectFile tracked stagingPath state =>
    if tracked = location then
      match state with
      | .staged => some (.ok (.objectFile tracked stagingPath .uploaded))
      | .uploaded =>
        some (.error ("object '" ++ location ++ "' is already Uploaded; state machine error"))
    else none
  | .createdLocalFile _ | .createdTableDir _ => none

end StorageResource

end LagoDB.StorageResources

namespace LagoDB.StorageLifecycle

open ActionLog StorageResources

/-- A resource and the number under which it was tracked. -/
structure Numbered where
  number : ℕ
  resource : StorageResource
  deriving DecidableEq

/-- Returns the resource when its cleanup failed. -/
def Numbered.onAbort (answers : Removal → Bool) (tracked : Numbered) : Option Numbered :=
  if tracked.resource.isCleaned answers then none else some tracked

abbrev Registry := StorageResourceRegistry Numbered

/-! ## Uploads -/

/-- Changes the first element that `change` accepts. -/
def changeFirst {α : Type} (change : α → Option (Except String α)) :
    List α → Option (Except String (List α))
  | [] => none
  | a :: rest =>
    match change a with
    | some changed => some (changed.map (· :: rest))
    | none => (changeFirst change rest).map (·.map (a :: ·))

def Numbered.markUploaded (location : String) (tracked : Numbered) :
    Option (Except String Numbered) :=
  (tracked.resource.markUploaded location).map
    (·.map fun resource => { tracked with resource := resource })

def markTrackedUploaded (location : String) (entry : TrackedResource Numbered) :
    Option (Except String (TrackedResource Numbered)) :=
  (entry.resource.markUploaded location).map
    (·.map fun resource => { entry with resource := resource })

def markEntryUploaded (registry : Registry) (location : String) : Except String Registry :=
  match changeFirst (markTrackedUploaded location) registry.entries with
  | some changed => changed.map fun entries => { registry with entries := entries }
  | none => .error ("no entry found for '" ++ location ++ "' during mark_uploaded")

/-- The resources of the running attempt come first. -/
def markObjectFileUploaded (registry : Registry) (location : String) : Except String Registry :=
  match registry.metadata.activeAttempt with
  | none => markEntryUploaded registry location
  | some attempt =>
    match changeFirst (Numbered.markUploaded location) attempt.resources with
    | some changed =>
      changed.map fun resources =>
        { registry with
          metadata :=
            { registry.metadata with
              activeAttempt := some { attempt with resources := resources } } }
    | none => markEntryUploaded registry location

/-! ## A transaction -/

/-- A callback on a resource: kept by a commit or cleaned by an abort. -/
inductive Effect where
  | committed (resource : Numbered)
  | aborted (resource : Numbered)
  deriving DecidableEq

structure Session where
  nestLevel : ℕ
  current : Option Registry
  finished : Bool
  next : ℕ
  log : List Effect

namespace Session

def initial : Session := ⟨1, none, false, 0, []⟩

variable (s : Session)

/-- `StorageTransactionResource::current`. -/
def registry : Registry := s.current.getD .new

def track (resource : StorageResource) : Session :=
  { s with
    current := some (s.registry.track s.nestLevel ⟨s.next, resource⟩)
    next := s.next + 1 }

def markObjectFileUploaded (location : String) : Except String Unit × Session :=
  match s.current with
  | none =>
    (.error ("storage transaction resource registry not initialized during mark_uploaded for '"
      ++ location ++ "'"), s)
  | some registry =>
    match StorageLifecycle.markObjectFileUploaded registry location with
    | .ok marked => (.ok (), { s with current := some marked })
    | .error error => (.error error, s)

def beginAttempt : Except IcebergError ℕ × Session :=
  let begun := s.registry.metadata.beginAttempt s.nestLevel
  (begun.1, { s with current := some { s.registry with metadata := begun.2 } })

def promoteAttempt (id : ℕ) : Except IcebergError Unit × Session :=
  let promoted := s.registry.metadata.promoteAttempt id
  (promoted.1, { s with current := some { s.registry with metadata := promoted.2 } })

/-- Also what dropping an unresolved attempt does. -/
def discardAttempt (id : ℕ) (answers : Removal → Bool) : Except IcebergError Unit × Session :=
  match s.registry.metadata.discardAttempt (Numbered.onAbort answers) id with
  | (.error error, metadata) =>
    (.error error, { s with current := some { s.registry with metadata := metadata } })
  | (.ok resources, metadata) =>
    (.ok (),
      { s with
        current := some { s.registry with metadata := metadata }
        log := s.log ++ resources.map .aborted })

def commitSub : Session :=
  { s with
    nestLevel := s.nestLevel - 1
    current := s.current.map (·.promoteSubtransactionResources s.nestLevel) }

def abortSub : Session :=
  let taken := s.registry.takeAbortedSubtransactionResources s.nestLevel
  { s with
    nestLevel := s.nestLevel - 1
    current := s.current.map fun _ => taken.2
    log := s.log ++ taken.1.map fun entry => .aborted entry.resource }

def commit : Session :=
  let (promoted, cleanup) := s.registry.metadata.drainTopLevel
  { s with
    current := none
    finished := true
    log := s.log ++ (s.registry.entries.map TrackedResource.resource ++ promoted).map .committed ++
      cleanup.map .aborted }

def rollback : Session :=
  let (promoted, cleanup) := s.registry.metadata.drainTopLevel
  { s with
    current := none
    finished := true
    log := s.log ++
      (s.registry.entries.map TrackedResource.resource ++ promoted ++ cleanup).map .aborted }

end Session

/-- Where a cleanup may be tried again, the operation says which removals succeed. -/
inductive Operation where
  | track (resource : StorageResource)
  | markUploaded (location : String)
  | begin
  | promote (id : ℕ)
  | discard (id : ℕ) (answers : Removal → Bool)
  | start
  | release
  | abort
  | commit
  | rollback

/-- A call that fails leaves what it left; subtransactions end innermost first, and
before the transaction. -/
def Session.apply (s : Session) : Operation → Option Session
  | .track resource => some (s.track resource)
  | .markUploaded location => some (s.markObjectFileUploaded location).2
  | .begin => some s.beginAttempt.2
  | .promote id => some (s.promoteAttempt id).2
  | .discard id answers => some (s.discardAttempt id answers).2
  | .start => some { s with nestLevel := s.nestLevel + 1 }
  | .release => if 2 ≤ s.nestLevel then some s.commitSub else none
  | .abort => if 2 ≤ s.nestLevel then some s.abortSub else none
  | .commit => if s.nestLevel = 1 then some s.commit else none
  | .rollback => if s.nestLevel = 1 then some s.rollback else none

def Session.step (s : Session) (operation : Operation) : Option Session :=
  if s.finished then none else s.apply operation

def Session.run (s : Session) (operations : List Operation) : Option Session :=
  operations.foldlM Session.step s

/-! ## The lifecycle of one resource -/

inductive Place where
  /-- With the transaction, under the level it belongs to. -/
  | entry (level : ℕ)
  | attempt (id : ℕ)
  | promoted
  /-- The attempt was discarded and the cleanup failed. -/
  | cleanupRequired
  deriving DecidableEq

inductive Ending where
  | kept
  | cleaned
  deriving DecidableEq

/-- What an operation at a level does to a resource: where it is then, and what
was done with it. `cleaned` says whether a cleanup at a discard succeeds. -/
def Place.follow (cleaned : Bool) (level : ℕ) :
    Place → Operation → Option Place × List Ending
  | .entry owner, .release => (some (.entry (if owner = level then level - 1 else owner)), [])
  | .entry owner, .abort =>
    if owner = level then (none, [.cleaned]) else (some (.entry owner), [])
  | .attempt active, .promote id =>
    if active = id then (some .promoted, []) else (some (.attempt active), [])
  | .attempt active, .discard id _ =>
    if active = id then (if cleaned then none else some .cleanupRequired, [.cleaned])
    else (some (.attempt active), [])
  | .entry _, .commit | .promoted, .commit => (none, [.kept])
  | .attempt _, .commit | .cleanupRequired, .commit => (none, [.cleaned])
  | _, .rollback => (none, [.cleaned])
  | place, _ => (some place, [])

def attemptResources (metadata : MetadataResourceRegistry Numbered) : List Numbered :=
  metadata.activeAttempt.elim [] MetadataAttemptState.resources

/-- Whether a discard cleans the resource of a number: the answers to the removals of
what the running attempt holds under it. -/
def Session.cleans (s : Session) (number : ℕ) : Operation → Bool
  | .discard _ answers => (attemptResources s.registry.metadata).all fun tracked =>
      tracked.number != number || tracked.resource.isCleaned answers
  | _ => true

/-- What is done with a resource in the rest of a run, from the place where it is. -/
def lifecycle (number : ℕ) : Option Place → Session → List Operation → List Ending
  | none, _, _ | some _, _, [] => []
  | some place, s, operation :: rest =>
    let (next, said) := place.follow (s.cleans number operation) s.nestLevel operation
    said ++ (s.step operation).elim [] (lifecycle number next · rest)

end LagoDB.StorageLifecycle
