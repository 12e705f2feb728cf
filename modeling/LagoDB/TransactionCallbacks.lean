import Mathlib.Data.List.Basic

/-!
# Transaction callbacks

PostgreSQL tells the extension about commits and aborts of transactions and
subtransactions. The extension keeps its resources in one list and passes each
event on to them. A pending delete runs on one of the two outcomes, a retired table
is deleted after commit, and other resources react in their own way. Each follows
the subtransaction it was registered in, and its parents after a release.
-/
namespace LagoDB.Transactions

/-! ## Resources -/

inductive CleanupTiming where
  | onCommit
  | onAbort
  deriving DecidableEq

/-- Actions are numbered as they are registered. -/
structure PendingDeleteResource where
  inner : Option ℕ
  timing : CleanupTiming
  nestLevel : ℕ
  deriving DecidableEq

structure TrackedRetirement where
  nestLevel : ℕ
  retirement : ℕ
  deriving DecidableEq

/-- The implementations of `TransactionResource`: the two that own actions, and any
other, which keeps the level it was registered at or belongs to the top level. -/
inductive Resource where
  | pendingDelete (resource : PendingDeleteResource)
  | localTableRetirements (entries : List TrackedRetirement)
  | leveled (id nestLevel : ℕ)
  | spanning (id : ℕ)
  deriving DecidableEq

inductive Effect where
  | executed (action : ℕ)
  | preCommitted (resource : ℕ)
  | committed (resource : ℕ)
  | aborted (resource : ℕ)
  /-- `on_abort_sub` for a level the resource belongs to. -/
  | abortedSub (resource : ℕ)
  | panicked
  deriving DecidableEq

namespace PendingDeleteResource

variable (resource : PendingDeleteResource)

def shouldRunOn (timing : CleanupTiming) : Bool := resource.timing == timing

def executeAbort : List Effect :=
  match resource.inner with
  | some action => [.executed action]
  | none => [.panicked]

end PendingDeleteResource

/-- What a commit callback does at once, and the cleanups it defers until the locks
are released. -/
structure CommitEffects where
  direct : List Effect
  deferred : List (List ℕ)
  deriving DecidableEq

namespace Resource

def nestLevel : Resource → ℕ
  | .pendingDelete resource => resource.nestLevel
  | .localTableRetirements _ => 1
  | .leveled _ nestLevel => nestLevel
  | .spanning _ => 1

def setNestLevel (level : ℕ) : Resource → Resource
  | .pendingDelete resource => .pendingDelete { resource with nestLevel := level }
  | .localTableRetirements entries => .localTableRetirements entries
  | .leveled id _ => .leveled id level
  | .spanning id => .spanning id

def isLocalTableRetirements : Resource → Bool
  | .localTableRetirements _ => true
  | _ => false

def onPreCommit : Resource → List Effect
  | .pendingDelete _ | .localTableRetirements _ => []
  | .leveled id _ | .spanning id => [.preCommitted id]

def onCommit : Resource → CommitEffects
  | .pendingDelete resource =>
    if resource.shouldRunOn .onCommit then
      match resource.inner with
      | some action => ⟨[], [[action]]⟩
      | none => ⟨[.panicked], []⟩
    else ⟨[], []⟩
  | .localTableRetirements entries =>
    if entries.isEmpty then ⟨[], []⟩
    else ⟨[], [entries.map TrackedRetirement.retirement]⟩
  | .leveled id _ | .spanning id => ⟨[.committed id], []⟩

def onAbort : Resource → List Effect
  | .pendingDelete resource =>
    if resource.shouldRunOn .onAbort then resource.executeAbort else []
  | .localTableRetirements _ => []
  | .leveled id _ | .spanning id => [.aborted id]

variable (currentNestLevel : ℕ)

def onCommitSub : Resource → Resource
  | .localTableRetirements entries =>
    .localTableRetirements (entries.map fun entry =>
      if currentNestLevel ≤ entry.nestLevel then
        { entry with nestLevel := currentNestLevel - 1 }
      else entry)
  | resource => resource

def onAbortSub : Resource → Resource × List Effect
  | .pendingDelete resource =>
    (.pendingDelete resource,
      if currentNestLevel ≤ resource.nestLevel ∧ resource.shouldRunOn .onAbort then
        resource.executeAbort
      else [])
  | .localTableRetirements entries =>
    (.localTableRetirements (entries.filter fun entry => entry.nestLevel < currentNestLevel), [])
  | .leveled id nestLevel =>
    (.leveled id nestLevel, if currentNestLevel ≤ nestLevel then [.abortedSub id] else [])
  | .spanning id => (.spanning id, [])

/-- The part of `subxact_callback` on a release that concerns one resource. -/
def promote (resource : Resource) : Resource :=
  let resource := resource.onCommitSub currentNestLevel
  if currentNestLevel ≤ resource.nestLevel then resource.setNestLevel (currentNestLevel - 1)
  else resource

def pushRetirement (entry : TrackedRetirement) : Resource → Resource
  | .localTableRetirements entries => .localTableRetirements (entries ++ [entry])
  | resource => resource

end Resource

/-! ## A transaction -/

inductive Registration where
  | pendingDelete (timing : CleanupTiming)
  | retirement
  | leveled
  | spanning
  deriving DecidableEq

/-- `current` says that the collection of retired tables is registered; `snapshot`
are the resources that still wait for their pre-commit callback. -/
structure Session where
  nestLevel : ℕ
  resources : List Resource
  current : Bool
  deferred : List (List ℕ)
  snapshot : Option (List Resource)
  finished : Bool
  next : ℕ
  log : List Effect
  deriving DecidableEq

namespace Session

def initial : Session := ⟨1, [], false, [], none, false, 0, []⟩

variable (s : Session)

def registerResource (resource : Resource) : Session :=
  { s with resources := s.resources ++ [resource] }

def openRetirements : Session :=
  if s.current then s
  else { s.registerResource (.localTableRetirements []) with current := true }

/-- `register_pending_delete`, `LocalTableRetirements::register` and
`register_resource`, at the current level. -/
def register (registration : Registration) : Session :=
  let registered :=
    match registration with
    | .pendingDelete timing =>
      s.registerResource (.pendingDelete ⟨some s.next, timing, s.nestLevel⟩)
    | .retirement =>
      let opened := s.openRetirements
      { opened with
        resources := opened.resources.map (Resource.pushRetirement ⟨s.nestLevel, s.next⟩) }
    | .leveled => s.registerResource (.leveled s.next s.nestLevel)
    | .spanning => s.registerResource (.spanning s.next)
  { registered with next := s.next + 1 }

/-- The callbacks of a release, at the level that is released. -/
def commitSub : Session :=
  { s with
    nestLevel := s.nestLevel - 1
    resources := s.resources.map (Resource.promote s.nestLevel) }

/-- The callbacks of an abort, at the level that is aborted. -/
def abortSub : Session :=
  let called := s.resources.map (Resource.onAbortSub s.nestLevel)
  { s with
    nestLevel := s.nestLevel - 1
    resources := (called.map Prod.fst).filter fun resource => resource.nestLevel < s.nestLevel
    log := s.log ++ called.flatMap Prod.snd }

/-- The resources an event at the top level is passed on to. -/
def called : List Resource := s.resources.filter fun resource => s.nestLevel ≤ resource.nestLevel

/-- The list is taken before its resources are called. -/
def takeResources : Session :=
  { s with
    resources := []
    current := s.current && !s.called.any Resource.isLocalTableRetirements }

def commitCallback : Session :=
  { s.takeResources with
    deferred := s.deferred ++ s.called.flatMap fun resource => resource.onCommit.deferred
    log := s.log ++ s.called.flatMap fun resource => resource.onCommit.direct }

def abortCallback : Session :=
  { s.takeResources with log := s.log ++ s.called.flatMap Resource.onAbort }

/-- `CommittedCleanup::release`, when the owner of the transaction released its
locks. -/
def releaseCleanup (isCommit : Bool) : Session :=
  { s with
    deferred := []
    log := s.log ++ if isCommit then s.deferred.flatten.map .executed else [] }

end Session

inductive Operation where
  | register (registration : Registration)
  | start
  | release
  | abort
  | preCommit
  /-- The next pre-commit callback; the operations that follow are its body. -/
  | onPreCommit
  | commit
  | rollback
  deriving DecidableEq

/-- PostgreSQL's order: subtransactions end innermost first, and before the
transaction; pre-commit callbacks run before the commit. -/
def Session.step (s : Session) (operation : Operation) : Option Session :=
  if s.finished then none
  else
    match operation with
    | .register registration => some (s.register registration)
    | .start => some { s with nestLevel := s.nestLevel + 1 }
    | .release => if 2 ≤ s.nestLevel then some s.commitSub else none
    | .abort => if 2 ≤ s.nestLevel then some s.abortSub else none
    | .preCommit =>
      if s.nestLevel = 1 ∧ s.snapshot = none then some { s with snapshot := some s.resources }
      else none
    | .onPreCommit =>
      match s.snapshot with
      | some (resource :: rest) =>
        if s.nestLevel = 1 then
          some { s with
            snapshot := some rest
            log := s.log ++
              if s.nestLevel ≤ resource.nestLevel then resource.onPreCommit else [] }
        else none
      | _ => none
    | .commit =>
      if s.nestLevel = 1 ∧ s.snapshot = some [] then
        some { s.commitCallback.releaseCleanup true with finished := true }
      else none
    | .rollback =>
      if s.nestLevel = 1 then
        some { s.abortCallback.releaseCleanup false with finished := true }
      else none

def Session.run (s : Session) (operations : List Operation) : Option Session :=
  operations.foldlM Session.step s

/-! ## What is to happen -/

inductive Outcome where
  /-- A subtransaction it belonged to aborted. -/
  | undone
  | committed
  | aborted
  deriving DecidableEq

/-- What becomes of something that belongs to the level `owner`. A release of that
level promotes it into the parent. -/
def fate (owner level : ℕ) : List Operation → Option Outcome
  | [] => none
  | .start :: rest => fate owner (level + 1) rest
  | .release :: rest => fate (if owner = level then level - 1 else owner) (level - 1) rest
  | .abort :: rest => if owner = level then some .undone else fate owner (level - 1) rest
  | .commit :: _ => some .committed
  | .rollback :: _ => some .aborted
  | .register _ :: rest | .preCommit :: rest | .onPreCommit :: rest => fate owner level rest

/-- What was registered, its number and the level it belongs to. -/
structure Item where
  id : ℕ
  registration : Registration
  level : ℕ
  deriving DecidableEq

/-- The level something belongs to from the start. -/
def Registration.owner (nestLevel : ℕ) : Registration → ℕ
  | .spanning => 1
  | _ => nestLevel

/-- Every action runs on its outcome only, and every other resource is called on
each. -/
def Registration.effects (id : ℕ) : Registration → Outcome → List Effect
  | .pendingDelete .onAbort, .undone | .pendingDelete .onAbort, .aborted => [.executed id]
  | .pendingDelete .onAbort, .committed => []
  | .pendingDelete .onCommit, .committed | .retirement, .committed => [.executed id]
  | .pendingDelete .onCommit, _ | .retirement, _ => []
  | .leveled, .committed | .spanning, .committed => [.committed id]
  | .leveled, .aborted | .spanning, .aborted => [.aborted id]
  | .leveled, .undone | .spanning, .undone => [.abortedSub id]

def Effect.settles (id : ℕ) : Effect → Bool
  | .executed action => action == id
  | .committed resource | .aborted resource | .abortedSub resource => resource == id
  | .preCommitted _ | .panicked => false

end LagoDB.Transactions
