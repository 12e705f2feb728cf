import Mathlib.Algebra.Group.Int.Defs
import Mathlib.Algebra.Group.Nat.Defs
import Mathlib.Order.Lattice

/-!
# Worker slots

A slot in shared memory records one registered worker: whether its catalog row
exists, how far its process has come, and which requests wait. Backends, the
coordinator and the worker process all change it, each change under one lock. The
system below is one slot with the processes launched for its key, at any
interleaving of those changes.
-/
namespace LagoDB.Workers

/-! ## Machine integers and durations -/

/-- The result of a saturating operation on signed integers of a width. -/
def saturate (width : ℕ) (value : ℤ) : ℤ :=
  max (-2 ^ (width - 1)) (min (2 ^ (width - 1) - 1) value)

/-- `i64::try_from(millis).unwrap_or(i64::MAX)`. -/
def clampMillis (millis : ℕ) : ℤ := min millis (2 ^ 63 - 1)

abbrev Duration := ℕ

namespace Duration

def largest : Duration := (2 ^ 64 - 1) * 10 ^ 9 + 999999999

def asMillis (duration : Duration) : ℕ := duration / 10 ^ 6

def saturatingMul (duration : Duration) (factor : ℕ) : Duration := min (duration * factor) largest

end Duration

/-! ## Slots -/

inductive RegistrationState where
  | empty
  | registered
  | removing
  deriving DecidableEq

inductive ProcessState where
  | stopped
  | starting
  | running
  | restarting
  | notStarted
  deriving DecidableEq

def ProcessState.isActive : ProcessState → Bool
  | .stopped | .notStarted => false
  | .starting | .running | .restarting => true

inductive WorkerSchedule where
  | idle
  | runImmediately
  | runAfter (delay : Duration)
  deriving DecidableEq

inductive WorkerStopDisposition where
  | settled
  | reconcile
  deriving DecidableEq

structure RestartPolicy where
  initial : Duration
  maximum : Duration
  healthy : Duration
  deriving DecidableEq

namespace RestartPolicy

variable (policy : RestartPolicy)

/-- A process that stayed up for the healthy time starts a new count. -/
def failureCountAfterCrash (failureCount startTimeMs nowMs : ℤ) : ℤ :=
  let previous :=
    if startTimeMs ≠ 0 ∧ clampMillis policy.healthy.asMillis ≤ saturate 64 (nowMs - startTimeMs)
    then 0 else failureCount
  saturate 32 (previous + 1)

/-- Exponential, up to the maximum. -/
def crashBackoff (failureCount : ℤ) : Duration :=
  let exponent := saturate 32 (failureCount - 1)
  let multiplier := if 0 ≤ exponent ∧ exponent < 32 then 2 ^ exponent.toNat else 2 ^ 32 - 1
  min (policy.initial.saturatingMul multiplier) policy.maximum

end RestartPolicy

structure Slot where
  extensionOid : ℕ
  workerName : String
  pid : ℤ
  restartAfterMs : ℤ
  startTimeMs : ℤ
  failureCount : ℤ
  registrationState : RegistrationState
  processState : ProcessState
  wakeRequested : Bool
  stopRequested : Bool
  needsRestart : Bool
  deriving DecidableEq

namespace Slot

def empty : Slot where
  extensionOid := 0
  workerName := ""
  pid := 0
  restartAfterMs := 0
  startTimeMs := 0
  failureCount := 0
  registrationState := .empty
  processState := .stopped
  wakeRequested := false
  stopRequested := false
  needsRestart := false

variable (slot : Slot)

def hasActiveProcess : Bool := slot.processState = .starting ∨ 0 < slot.pid

variable (nowMs : ℤ)

/-- Milliseconds until the worker may be started; `none` where it may not. -/
def restartDelay : Option ℕ :=
  if slot.registrationState ≠ .registered ∨ slot.processState = .starting ∨ 0 < slot.pid ∨
      slot.stopRequested ∨ slot.needsRestart = false then none
  else some (max (saturate 64 (slot.restartAfterMs - nowMs)) 0).toNat

def initializeRegistration (extensionOid : ℕ) (workerName : String) : Slot :=
  { empty with
    extensionOid
    workerName
    registrationState := .registered
    processState := .notStarted
    needsRestart := true }

/-- A wakeup waits for the running process or a crash backoff. -/
def requestWakeup : Slot :=
  if slot.processState ≠ .starting ∧ slot.pid = 0 ∧ slot.registrationState = .registered ∧
      slot.stopRequested = false ∧ ¬(0 < slot.failureCount ∧ 0 < slot.restartAfterMs) then
    { slot with needsRestart := true, restartAfterMs := 0, wakeRequested := false }
  else { slot with wakeRequested := true }

def scheduleExistingRestart : Slot :=
  { slot with processState := .restarting, needsRestart := true }

/-- SIGTERM cannot be withdrawn: the stop gate opens only after the old process
has exited. -/
def reconcilePresent : Slot :=
  let slot := { slot with registrationState := .registered }
  if slot.stopRequested then
    if slot.hasActiveProcess then slot
    else
      let slot := { slot with stopRequested := false }
      if slot.wakeRequested then slot.requestWakeup
      else if slot.needsRestart then slot.scheduleExistingRestart
      else { slot with processState := .stopped }
  else if slot.wakeRequested then slot.requestWakeup
  else slot

def requestStop : Slot :=
  { slot with
    stopRequested := true
    processState := if slot.processState = .running then .restarting else slot.processState }

def markRemoving : Slot := requestStop { slot with registrationState := .removing }

def prepareStart : Slot :=
  { slot with
    processState := .starting
    needsRestart := false
    wakeRequested := false
    restartAfterMs := 0
    startTimeMs := 0 }

/-- The process takes the slot, unless a stop or a wakeup came first. -/
def markRunning (pid startTimeMs : ℤ) : Slot × Bool :=
  if slot.processState ≠ .starting ∨ slot.stopRequested ∨ slot.wakeRequested then (slot, false)
  else ({ slot with processState := .running, pid, needsRestart := false, startTimeMs }, true)

def completeRun (schedule : WorkerSchedule) (nowMs : ℤ) : Slot :=
  match schedule with
  | .idle => slot
  | .runImmediately =>
    { slot with needsRestart := true, restartAfterMs := 0, processState := .restarting }
  | .runAfter delay =>
    { slot with
      needsRestart := true
      restartAfterMs := saturate 64 (nowMs + clampMillis delay.asMillis)
      processState := .restarting }

def prepareTransactionalStop : Slot × Bool :=
  if slot.processState ≠ .starting ∧ slot.pid = 0 then (slot, false)
  else (requestStop { slot with needsRestart := true }, true)

/-- The schedule a stopped process leaves behind, by why it stopped. -/
def afterExit (policy : RestartPolicy) (exitCode startTimeMs : ℤ) : Slot :=
  if slot.registrationState ≠ .registered then
    { slot with
      processState := .stopped
      stopRequested := false
      needsRestart := false
      restartAfterMs := 0
      wakeRequested := false }
  else if slot.stopRequested then slot.scheduleExistingRestart
  else if exitCode = 0 then
    if slot.wakeRequested then
      { slot with
        processState := .restarting
        needsRestart := true
        restartAfterMs := 0
        wakeRequested := false }
    else if slot.needsRestart then slot.scheduleExistingRestart
    else { slot with processState := .stopped, needsRestart := false, restartAfterMs := 0 }
  else if slot.needsRestart then slot.scheduleExistingRestart
  else
    let failureCount := policy.failureCountAfterCrash slot.failureCount startTimeMs nowMs
    { slot with
      processState := .restarting
      failureCount
      needsRestart := true
      restartAfterMs :=
        saturate 64 (nowMs + clampMillis (policy.crashBackoff failureCount).asMillis) }

def confirmStopped (policy : RestartPolicy) (exitCode : ℤ) :
    Slot × Option WorkerStopDisposition :=
  if slot.processState ≠ .starting ∧ slot.pid = 0 then (slot, none)
  else
    let needsReconcile := slot.stopRequested ∨ slot.registrationState ≠ .registered ∨
      slot.needsRestart ∨ slot.wakeRequested ∨ exitCode ≠ 0
    let stopped :=
      { slot with
        pid := 0
        startTimeMs := 0
        failureCount := if exitCode = 0 then 0 else slot.failureCount }
    (stopped.afterExit nowMs policy exitCode slot.startTimeMs,
      some (if needsReconcile then .reconcile else .settled))

def registrationFailed (retryDelay : Duration) : Slot × Bool :=
  let pending := slot.restartDelay nowMs = some 0
  if slot.hasActiveProcess = false ∧ ¬pending then (slot, false)
  else
    let slot := { slot with pid := 0 }
    let slot :=
      if slot.stopRequested then slot.scheduleExistingRestart
      else
        { slot with
          processState := .notStarted
          restartAfterMs := saturate 64 (nowMs + clampMillis retryDelay.asMillis)
          needsRestart := true }
    ({ slot with startTimeMs := 0 }, true)

end Slot

/-! ## The store on one key -/

namespace Store

variable (entry : Option Slot)

/-- `reconcile_registrations` on a worker of the catalog snapshot. -/
def reconcileRegistration (extensionOid : ℕ) (workerName : String) : Slot :=
  match entry with
  | some slot => slot.reconcilePresent
  | none => (Slot.initializeRegistration extensionOid workerName).requestWakeup

/-- Every loop over workers that the catalog no longer has: an active one is asked
to stop, another leaves the table. -/
def removeWorker : Option Slot :=
  entry.bind fun slot => if slot.hasActiveProcess then some slot.markRemoving else none

def workerRegistrationMissing : Option Slot :=
  entry.map fun slot => if slot.hasActiveProcess then slot.markRemoving else slot

/-- The exit callback; a slot that was being removed leaves the table. -/
def workerExit (nowMs : ℤ) (policy : RestartPolicy) (exitCode : ℤ) : Option Slot :=
  entry.bind fun slot =>
    let (stopped, disposition) := slot.confirmStopped nowMs policy exitCode
    if disposition.isSome ∧ stopped.registrationState = .removing then none else some stopped

end Store

def capacityRetry : Duration := 10 ^ 8

/-! ## The system -/

inductive Phase where
  /-- Forked, its entry point not yet in the slot. -/
  | launched
  /-- `mark_running` turned it away. -/
  | refused
  | attached
  deriving DecidableEq

/-- What happened, as far as the guarantees speak of it. -/
inductive Event where
  | inserted
  | reconciled
  | woken
  | stopRequested
  | launched
  | attached
  | completed (schedule : WorkerSchedule)
  | exited (exitCode : ℤ)
  | startFailed
  deriving DecidableEq

/-- The slot of a key, the live processes launched for it, and what happened so
far, latest first. -/
structure System where
  slot : Option Slot
  processes : List Phase
  history : List Event
  deriving DecidableEq

inductive Operation where
  | reconcile (extensionOid : ℕ) (workerName : String)
  | remove
  | wake
  | stop
  | launch (nowMs : ℤ) (registered : Bool) (laterMs : ℤ)
  | registrationFailed (nowMs : ℤ)
  | lose (process : ℕ)
  | attach (process : ℕ) (pid nowMs : ℤ)
  | registrationMissing (process : ℕ)
  | complete (process : ℕ) (schedule : WorkerSchedule) (nowMs : ℤ)
  | exit (process : ℕ) (exitCode nowMs : ℤ) (policy : RestartPolicy)
  deriving DecidableEq

namespace System

def initial : System := ⟨none, [], []⟩

variable (s : System)

def record (slot : Option Slot) (event : Event) : System :=
  ⟨slot, s.processes, event :: s.history⟩

def reconcile (extensionOid : ℕ) (workerName : String) : System :=
  s.record (some (Store.reconcileRegistration s.slot extensionOid workerName))
    (if s.slot.isSome then .reconciled else .inserted)

/-- A catalog snapshot without the worker, or a dropped database. -/
def remove : System :=
  match s.slot with
  | some slot =>
    if slot.hasActiveProcess then s.record (Store.removeWorker s.slot) .stopRequested
    else { s with slot := Store.removeWorker s.slot }
  | none => s

def wake : System :=
  match s.slot with
  | some slot => s.record (some slot.requestWakeup) .woken
  | none => s

def stop : System :=
  match s.slot with
  | some slot =>
    if slot.prepareTransactionalStop.2 then
      s.record (some slot.prepareTransactionalStop.1) .stopRequested
    else s
  | none => s

/-- `register_ready_worker`: a ready slot is reserved for the registered process,
or delayed when PostgreSQL has no room for one. -/
def launch (nowMs : ℤ) (registered : Bool) (laterMs : ℤ) : System :=
  match s.slot with
  | some slot =>
    if slot.restartDelay nowMs = some 0 then
      if registered then
        ⟨some slot.prepareStart, s.processes ++ [.launched], .launched :: s.history⟩
      else s.record (some (slot.registrationFailed laterMs capacityRetry).1) .startFailed
    else s
  | none => s

/-- The coordinator learns that the process it launched is gone. -/
def registrationFailed (nowMs : ℤ) : System :=
  match s.slot with
  | some slot => s.record (some (slot.registrationFailed nowMs capacityRetry).1) .startFailed
  | none => s

/-- `begin_worker` by a launched process. -/
def attach (process : ℕ) (pid nowMs : ℤ) : System :=
  match s.slot with
  | some slot =>
    if (slot.markRunning pid nowMs).2 then
      ⟨some (slot.markRunning pid nowMs).1, s.processes.set process .attached,
        .attached :: s.history⟩
    else { s with processes := s.processes.set process .refused }
  | none => { s with processes := s.processes.set process .refused }

def registrationMissing : System :=
  match s.slot with
  | some slot =>
    if slot.hasActiveProcess then
      s.record (Store.workerRegistrationMissing s.slot) .stopRequested
    else s
  | none => s

def complete (schedule : WorkerSchedule) (nowMs : ℤ) : System :=
  match s.slot with
  | some slot => s.record (some (slot.completeRun schedule nowMs)) (.completed schedule)
  | none => s

def exit (process : ℕ) (exitCode nowMs : ℤ) (policy : RestartPolicy) : System :=
  ⟨Store.workerExit s.slot nowMs policy exitCode, s.processes.eraseIdx process,
    .exited exitCode :: s.history⟩

/-- One operation. A process acts in its own phase and exits with code 0 only after
it called `mark_running`; a failed registration is reported only when no process
is left. -/
def step : Operation → Option System
  | .reconcile extensionOid workerName => some (s.reconcile extensionOid workerName)
  | .remove => some s.remove
  | .wake => some s.wake
  | .stop => some s.stop
  | .launch nowMs registered laterMs => some (s.launch nowMs registered laterMs)
  | .registrationFailed nowMs =>
    if s.processes = [] then some (s.registrationFailed nowMs) else none
  | .lose process =>
    if s.processes[process]? = some .launched then
      some { s with processes := s.processes.eraseIdx process }
    else none
  | .attach process pid nowMs =>
    if s.processes[process]? = some .launched ∧ 0 < pid then some (s.attach process pid nowMs)
    else none
  | .registrationMissing process =>
    if s.processes[process]? = some .attached then some s.registrationMissing else none
  | .complete process schedule nowMs =>
    if s.processes[process]? = some .attached then some (s.complete schedule nowMs) else none
  | .exit process exitCode nowMs policy =>
    match s.processes[process]? with
    | none => none
    | some phase =>
      if phase = .launched ∧ exitCode = 0 then none
      else some (s.exit process exitCode nowMs policy)

def run (operations : List Operation) : Option System :=
  operations.foldlM step initial

end System

end LagoDB.Workers
