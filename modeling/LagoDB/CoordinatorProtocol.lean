import LagoDB.WorkerSlots
import LagoDB.ExceptLoop

/-!
# The coordinator protocol

Each database has at most one coordinator, which applies catalog snapshots to the
workers of the database and launches them. Requests, stops that hand over to a
successor, the supervisor that reserves and starts coordinators, and the
coordinators themselves act on shared slots in any order. A handoff takes the
authority of the coordinator that is there away, and only a reservation gives it
to the next one.
-/
namespace LagoDB.Coordinators

open ExceptLoop List Option System
open Workers (ProcessState)

/-! ## Slots -/

inductive CoordinatorStopDisposition where
  | settled
  | handoffNow
  | failed
  deriving DecidableEq

def invalidProcNumber : ℤ := -1

structure CoordinatorSlot where
  pid : ℤ
  procNumber : ℤ
  processState : ProcessState
  stopRequested : Bool
  needsRestart : Bool
  deriving DecidableEq

namespace CoordinatorSlot

def new : CoordinatorSlot := ⟨0, invalidProcNumber, .stopped, false, false⟩

variable (slot : CoordinatorSlot)

/-- A waiting request does not revoke authority: the live coordinator may still
serve it. -/
def hasReconciliationAuthority : Bool := slot.processState.isActive && !slot.stopRequested

def reserve (_ : CoordinatorSlot) : CoordinatorSlot :=
  ⟨0, invalidProcNumber, .starting, false, false⟩

def markRunning (pid procNumber : ℤ) : CoordinatorSlot × Bool :=
  if slot.processState ≠ .starting ∨ slot.stopRequested ∨ slot.needsRestart then (slot, false)
  else ({ slot with processState := .running, pid, procNumber }, true)

def requestRestart : CoordinatorSlot := { slot with needsRestart := true }

def requestStop : CoordinatorSlot :=
  { slot with
    needsRestart := false
    stopRequested := true
    processState :=
      match slot.processState with
      | .starting | .running => .restarting
      | state => state }

/-- Invalidates the coordinator and keeps the work for its successor. -/
def requestHandoff : CoordinatorSlot := { slot.requestStop with needsRestart := true }

def confirmStopped (exitCode : ℤ) : CoordinatorSlot × Option CoordinatorStopDisposition :=
  if slot.processState.isActive = false then (slot, none)
  else
    let failed := slot.stopRequested = false ∧ exitCode ≠ 0
    let disposition : CoordinatorStopDisposition :=
      if failed then .failed else if slot.needsRestart then .handoffNow else .settled
    ({ slot with
        needsRestart := decide failed || slot.needsRestart
        processState := .stopped
        pid := 0
        procNumber := invalidProcNumber }, some disposition)

def resetAfterRegistrationFailure (_ : CoordinatorSlot) : CoordinatorSlot :=
  ⟨0, invalidProcNumber, .stopped, false, true⟩

end CoordinatorSlot

/-! ## One database -/

inductive Phase where
  | launched
  | running
  | returning
  deriving DecidableEq

/-- What a coordinator read of the catalog, and the number of handoffs of its
database at that time. -/
structure CatalogSnapshot where
  installed : Bool
  takenAt : ℕ
  deriving DecidableEq

/-- A live coordinator process, with the number of handoffs of its database when
it was reserved. -/
structure Coordinator where
  phase : Phase
  reservedAt : ℕ
  snapshot : Option CatalogSnapshot
  deriving DecidableEq

/-- `reconcile_registrations`, `register_ready_worker` and
`clear_database_workers`. -/
inductive Action where
  | reconcile
  | launch
  | clear
  deriving DecidableEq

/-- An action of a coordinator that took effect, and the number of handoffs at
that time. -/
structure Application where
  action : Action
  coordinator : Coordinator
  handoffs : ℕ
  deriving DecidableEq

inductive Event where
  /-- A coordination request, and whether it asked for a scan of all databases. -/
  | requested (rescan : Bool)
  | reserved
  | dropped
  deriving DecidableEq

/-- The slot of a database, its live coordinators and what happened so far, the
latest first. -/
structure Database where
  slot : Option CoordinatorSlot
  coordinators : List Coordinator
  handoffs : ℕ
  history : List Event
  applied : List Application
  deriving DecidableEq

open Database

namespace Database

def initial : Database := ⟨none, [], 0, [], []⟩

variable (d : Database)

/-- `request_coordination_locked`, and whether it asks for a full scan. -/
def request : Database × Bool :=
  match d.slot with
  | none => ({ d with history := .requested true :: d.history }, true)
  | some slot =>
    let rescan := slot.procNumber == invalidProcNumber
    ({ d with slot := some slot.requestRestart, history := .requested rescan :: d.history }, rescan)

/-- `request_stop_worker`, `prepare_drop_database` and `prepare_drop_extension`, as
far as the coordinator goes. -/
def handoff : Database :=
  { d with slot := d.slot.map CoordinatorSlot.requestHandoff, handoffs := d.handoffs + 1 }

/-- A registered process and the slot reserved for it. -/
def reserve (slot : CoordinatorSlot) : Database :=
  { d with
    slot := some slot.requestRestart.reserve
    coordinators := d.coordinators ++ [⟨.launched, d.handoffs, none⟩]
    history := .reserved :: d.history }

/-- `register_coordinator`: PostgreSQL may have no room for the slot or for the
process. -/
def register (room registered : Bool) : Database :=
  match d.slot with
  | none =>
    if room = false then d
    else if registered then d.reserve .new
    else { d with slot := some CoordinatorSlot.new.requestRestart }
  | some slot =>
    if slot.processState.isActive then d
    else if slot.needsRestart = false then d
    else if registered then d.reserve slot
    else { d with slot := some slot.requestRestart }

def registrationFailed : Database :=
  { d with
    slot := d.slot.map fun slot =>
      if slot.processState.isActive then slot.resetAfterRegistrationFailure else slot }

variable (index : ℕ)

/-- `begin_coordinator`; a refused process returns. -/
def begin (pid procNumber : ℤ) : Database :=
  let started := d.slot.map fun slot => slot.markRunning pid procNumber
  { d with
    slot := started.map Prod.fst
    coordinators := d.coordinators.modify index fun coordinator =>
      { coordinator with
        phase := if started.map Prod.snd = some true then .running else .returning } }

def readCatalog (installed : Bool) : Database :=
  { d with
    coordinators := d.coordinators.modify index fun coordinator =>
      { coordinator with snapshot := some ⟨installed, d.handoffs⟩ } }

/-- The guard of `validate_coordinator`, `reconcile_registrations` and
`register_ready_worker`. -/
def authorized : Bool := d.slot.any CoordinatorSlot.hasReconciliationAuthority

/-- Only `clear_database_workers` does not ask for authority. -/
def act (coordinator : Coordinator) (action : Action) : Database :=
  if action = .clear ∨ d.authorized = true then
    { d with
      coordinators := d.coordinators.modify index fun coordinator =>
        { coordinator with phase := if action = .clear then .returning else coordinator.phase }
      applied := ⟨action, coordinator, d.handoffs⟩ :: d.applied }
  else d

/-- `coordinator_exit_callback`. -/
def exit (exitCode : ℤ) : Database :=
  { d with
    slot := d.slot.map fun slot => (slot.confirmStopped exitCode).1
    coordinators := d.coordinators.eraseIdx index }

/-- `remove_dropped_databases` on a database that is gone. -/
def drop : Database :=
  { d with
    slot := d.slot.bind fun slot =>
      if slot.processState.isActive then some slot.requestStop else none
    history := .dropped :: d.history }

end Database

/-- What a coordinator has read when it takes an action: registrations it
reconciles, or that the runtime catalog does not exist. -/
def Coordinator.ready (coordinator : Coordinator) : Action → Bool
  | .reconcile => coordinator.snapshot.any CatalogSnapshot.installed
  | .launch => true
  | .clear => coordinator.snapshot.any fun snapshot => !snapshot.installed

inductive DatabaseOperation where
  | request
  | handoff
  | register (room registered : Bool)
  | registrationFailed
  | lose (index : ℕ)
  | begin (index : ℕ) (pid procNumber : ℤ)
  | readCatalog (index : ℕ) (installed : Bool)
  | act (index : ℕ) (action : Action)
  | exit (index : ℕ) (exitCode : ℤ)
  | drop
  deriving DecidableEq

/-- What a live coordinator does in a phase. -/
def Database.asCoordinator (d : Database) (index : ℕ) (phase : Phase)
    (next : Coordinator → Option Database) : Option (Database × Bool) :=
  match d.coordinators[index]? with
  | none => none
  | some coordinator =>
    if coordinator.phase = phase then (next coordinator).map (·, false) else none

/-- One operation and whether it asks for a full scan. PostgreSQL reports a process
as stopped only when it is gone; one that is lost before its start ran no exit
callback. -/
def Database.step (d : Database) : DatabaseOperation → Option (Database × Bool)
  | .request => some d.request
  | .handoff => some (d.handoff, false)
  | .register room registered => some (d.register room registered, false)
  | .registrationFailed =>
    if d.coordinators = [] then some (d.registrationFailed, false) else none
  | .lose index =>
    d.asCoordinator index .launched fun _ =>
      some { d with coordinators := d.coordinators.eraseIdx index }
  | .begin index pid procNumber =>
    d.asCoordinator index .launched fun _ => some (d.begin index pid procNumber)
  | .readCatalog index installed =>
    d.asCoordinator index .running fun _ => some (d.readCatalog index installed)
  | .act index action =>
    d.asCoordinator index .running fun coordinator =>
      if coordinator.ready action then some (d.act index coordinator action) else none
  | .exit index exitCode =>
    if (d.coordinators[index]?).isSome then some (d.exit index exitCode, false) else none
  | .drop => some (d.drop, false)

/-! ## All databases -/

structure System where
  databases : ℕ → Database
  rescanAll : Bool
  /-- The postmaster lives and the supervisor goes on. -/
  supervised : Bool

inductive Operation where
  | takeFullScanRequest
  /-- The supervisor learns it while it waits for a coordinator to start. -/
  | postmasterDied (database : ℕ)
  | on (database : ℕ) (operation : DatabaseOperation)
  deriving DecidableEq

def System.initial : System := ⟨fun _ => .initial, true, true⟩

def DatabaseOperation.isRegister : DatabaseOperation → Bool
  | .register _ _ => true
  | _ => false

/-- Operations in the order of the lock. The invalid database has none, and a
supervisor without a postmaster registers no process. -/
def System.step (s : System) : Operation → Option System
  | .takeFullScanRequest => some { s with rescanAll := false }
  | .postmasterDied database =>
    some { s with
      databases :=
        Function.update s.databases database (s.databases database).registrationFailed
      supervised := false }
  | .on database operation =>
    if database = 0 then some s
    else if operation.isRegister ∧ s.supervised = false then none
    else
      ((s.databases database).step operation).map fun next =>
        { s with
          databases := Function.update s.databases database next.1
          rescanAll := s.rescanAll || next.2 }

def System.run (operations : List Operation) : Option System :=
  operations.foldlM step .initial

/-- A coordinator that clears the workers has read the catalog after every handoff. -/
def Database.ClearsInTime (d : Database) : DatabaseOperation → Prop
  | .act index .clear => ∀ coordinator snapshot, d.coordinators[index]? = some coordinator →
    coordinator.snapshot = some snapshot → snapshot.takenAt = d.handoffs
  | _ => True

def System.ClearsInTime (s : System) : List Operation → Prop
  | [] => True
  | operation :: rest =>
    (match operation with
      | .on database operation => (s.databases database).ClearsInTime operation
      | _ => True) ∧
    ∀ next, s.step operation = some next → next.ClearsInTime rest

/-! ## The invariant -/

/-- A request that no reservation has taken over yet and that left no scan. A
dropped database needs none. -/
def openRequest : List Event → Bool
  | [] => false
  | .requested rescan :: rest => !rescan || openRequest rest
  | .reserved :: _ | .dropped :: _ => false

/-- A coordinator with authority was reserved and read the catalog after every
handoff. -/
@[grind cases]
structure Coordinator.Current (coordinator : Coordinator) (handoffs : ℕ) (authorized : Bool) :
    Prop where
  reserved : authorized = true → coordinator.reservedAt = handoffs
  taken : ∀ snapshot, coordinator.snapshot = some snapshot →
    coordinator.reservedAt ≤ snapshot.takenAt ∧ snapshot.takenAt ≤ handoffs
  bounded : coordinator.reservedAt ≤ handoffs

/-- No handoff lies between the reservation, the catalog read and the action. -/
@[grind cases]
structure Application.Fresh (application : Application) : Prop where
  reserved : application.coordinator.reservedAt = application.handoffs
  taken : ∀ snapshot, application.coordinator.snapshot = some snapshot →
    snapshot.takenAt = application.handoffs

/-- A live coordinator is the only one and, under a supervisor, holds its slot. -/
@[grind cases]
structure Database.Inv (supervised : Bool) (d : Database) : Prop where
  single : d.coordinators.length ≤ 1
  active : supervised = true → d.coordinators ≠ [] →
    ∃ slot, d.slot = some slot ∧ slot.processState.isActive = true
  current : ∀ coordinator ∈ d.coordinators, coordinator.Current d.handoffs d.authorized
  requests : openRequest d.history = true → ∃ slot, d.slot = some slot ∧ slot.needsRestart = true
  fresh : ∀ application ∈ d.applied, application.action ≠ .clear → application.Fresh

lemma Coordinator.Current.mono {c : Coordinator} {handoffs l : ℕ}
    {a s : Bool} (h : c.Current handoffs a)
    (hl : handoffs ≤ l) (hs : s = true → a = true ∧ l = handoffs) : c.Current l s := by
  constructor <;> grind

namespace CoordinatorSlot

variable (slot : CoordinatorSlot)

lemma requestStop_active : slot.requestStop.processState.isActive = slot.processState.isActive := by
  cases h : slot.processState <;> simp [requestStop, h, ProcessState.isActive]

lemma requestStop_authority : slot.requestStop.hasReconciliationAuthority = false := by
  simp [requestStop, hasReconciliationAuthority]

variable (pid n : ℤ)

lemma markRunning_active :
    (slot.markRunning pid n).1.processState.isActive = slot.processState.isActive := by
  grind [markRunning, ProcessState.isActive]

lemma markRunning_authority :
    (slot.markRunning pid n).1.hasReconciliationAuthority = slot.hasReconciliationAuthority := by
  grind [markRunning, hasReconciliationAuthority, ProcessState.isActive]

lemma markRunning_needsRestart : (slot.markRunning pid n).1.needsRestart = slot.needsRestart := by
  grind [markRunning]

lemma confirmStopped_needsRestart (e : ℤ) (h : slot.needsRestart = true) :
    (slot.confirmStopped e).1.needsRestart = true := by
  grind [confirmStopped]

end CoordinatorSlot

attribute [local simp] begin openRequest

namespace Database

variable {p : Bool} {d : Database}

lemma Inv.initial : Inv p .initial := by
  constructor <;> simp [Database.initial]

open CoordinatorSlot

lemma Inv.request (h : d.Inv p) : d.request.1.Inv p := by
  unfold Database.request
  cases hs : d.slot with
  | none => constructor <;> grind [openRequest, authorized]
  | some slot =>
    constructor <;>
      grind [openRequest, authorized, requestRestart, hasReconciliationAuthority]

lemma handoff_authorized : d.handoff.authorized = false := by
  cases hs : d.slot <;>
    simp [handoff, authorized, hs, requestHandoff, hasReconciliationAuthority, requestStop]

lemma Inv.handoff (h : d.Inv p) : d.handoff.Inv p where
  single := h.single
  active hs hl := by
    obtain ⟨slot, hsl, ha⟩ := h.active hs hl
    refine ⟨slot.requestHandoff, by simp [Database.handoff, hsl], ?_⟩
    simpa [requestHandoff, requestStop_active] using ha
  current coordinator hm := by
    rw [handoff_authorized]
    exact (h.current coordinator hm).mono (Nat.le_succ _) (by simp)
  requests ho := by
    obtain ⟨slot, hsl, -⟩ := h.requests ho
    exact ⟨slot.requestHandoff, by simp [Database.handoff, hsl], rfl⟩
  fresh := h.fresh

lemma Inv.reserve (h : d.Inv p) (hn : d.coordinators = []) (slot : CoordinatorSlot) :
    (d.reserve slot).Inv p where
  single := by simp [Database.reserve, hn]
  active _ _ := ⟨_, rfl, rfl⟩
  current coordinator hm := by
    have hnew : coordinator = ⟨.launched, d.handoffs, none⟩ := by
      simpa [Database.reserve, hn] using hm
    subst hnew
    exact ⟨fun _ => rfl, by simp, le_rfl⟩
  requests ho := by simp [Database.reserve] at ho
  fresh := h.fresh

lemma Inv.unoccupied (h : d.Inv true)
    (hs : ∀ slot, d.slot = some slot → slot.processState.isActive = false) :
    d.coordinators = [] := by
  by_contra hl
  obtain ⟨slot, hso, ha⟩ := h.active rfl hl
  simp [hs slot hso] at ha

lemma Inv.register (h : d.Inv true) (room r : Bool) : (d.register room r).Inv true := by
  unfold Database.register
  cases hs : d.slot with
  | none =>
    have hn := h.unoccupied (by simp [hs])
    dsimp only
    split_ifs
    · exact h
    · exact h.reserve hn _
    · constructor <;> grind [requestRestart]
  | some slot =>
    dsimp only
    split_ifs with ha
    · exact h
    · exact h
    · exact h.reserve (h.unoccupied (by simpa [hs] using ha)) _
    · have hn := h.unoccupied (by simpa [hs] using ha)
      constructor <;> grind [requestRestart]

lemma Inv.registrationFailed (h : d.Inv p) {s : Bool}
    (hl : s = true → d.coordinators = []) : d.registrationFailed.Inv s where
  single := h.single
  active hst hc := absurd (hl hst) hc
  current coordinator hm := by
    refine (h.current coordinator hm).mono le_rfl fun ha => ⟨?_, rfl⟩
    cases hs : d.slot <;>
      grind [registrationFailed, authorized, hasReconciliationAuthority,
        resetAfterRegistrationFailure, ProcessState.isActive]
  requests ho := by
    obtain ⟨slot, hs, hr⟩ := h.requests ho
    refine ⟨_, congrArg (Option.map _) hs, ?_⟩
    dsimp only
    split_ifs
    · rfl
    · exact hr
  fresh := h.fresh

lemma mem_modify {α : Type} {xs : List α} {i : ℕ} {f : α → α} {x : α}
    (h : x ∈ xs.modify i f) : x ∈ xs ∨ ∃ y ∈ xs, f y = x := by
  induction xs generalizing i with
  | nil => simp at h
  | cons head t ih => cases i <;> grind

section

variable (h : d.Inv p)

include h

lemma Inv.begin (i : ℕ) (pid n : ℤ) : (d.begin i pid n).Inv p where
  single := by simpa using h.single
  active hsu hl := by
    obtain ⟨slot, hs, ha⟩ := h.active hsu (by
      simpa [← length_pos_iff] using hl)
    refine ⟨(slot.markRunning pid n).1, by simp [hs], ?_⟩
    rwa [markRunning_active]
  current coordinator hm := by
    have hsa : (d.begin i pid n).authorized = d.authorized := by
      cases hs : d.slot <;>
        simp [authorized, hs, markRunning_authority]
    rw [hsa]
    obtain ho | ⟨o, ho, rfl⟩ := mem_modify hm
    · exact h.current coordinator ho
    · obtain ⟨hr, ht, hb⟩ := h.current o ho
      exact ⟨hr, ht, hb⟩
  requests hope := by
    obtain ⟨slot, hs, hre⟩ := h.requests hope
    refine ⟨(slot.markRunning pid n).1, by simp [hs], ?_⟩
    rwa [markRunning_needsRestart]
  fresh := h.fresh

/-- A coordinator with authority was reserved after the last handoff, so what it
reads comes after it too. -/
lemma Inv.readCatalog (i : ℕ) (installed : Bool) : (d.readCatalog i installed).Inv p where
  single := by simpa [Database.readCatalog] using h.single
  active hs hl := h.active hs (by
    simpa [Database.readCatalog, ← length_pos_iff] using hl)
  current coordinator hm := by
    obtain ho | ⟨o, ho, rfl⟩ := mem_modify hm
    · exact h.current coordinator ho
    · obtain ⟨hr, -, hb⟩ := h.current o ho
      refine ⟨hr, fun s hsn => ?_, hb⟩
      cases hsn
      exact ⟨hb, le_rfl⟩
  requests := h.requests
  fresh := h.fresh

lemma Inv.act {i : ℕ} {c : Coordinator} (hm : c ∈ d.coordinators) (act : Action) :
    (d.act i c act).Inv p := by
  have hc := h.current c hm
  unfold Database.act
  by_cases hg : act = .clear ∨ d.authorized = true
  · rw [if_pos hg]
    refine ⟨by simpa using h.single, fun hs hl => h.active hs (by
      simpa [← length_pos_iff] using hl), fun l hl => ?_, h.requests, ?_⟩
    · obtain ho | ⟨o, ho, rfl⟩ := mem_modify hl
      · exact h.current l ho
      · obtain ⟨hr, ht, hb⟩ := h.current o ho
        exact ⟨hr, ht, hb⟩
    · intro a ha hac
      obtain rfl | ha := mem_cons.mp ha
      · have hr := hc.reserved (hg.resolve_left hac)
        refine ⟨hr, fun s hsn => ?_⟩
        have ht := hc.taken s hsn
        dsimp only
        omega
      · exact h.fresh a ha hac
  · rwa [if_neg hg]

section

variable {i : ℕ} (hi : i < d.coordinators.length)

include hi

lemma Inv.remove : d.coordinators.eraseIdx i = [] := by
  have hs := h.single
  rw [← length_eq_zero_iff, length_eraseIdx_of_lt hi]
  omega

lemma Inv.lose : Inv p { d with coordinators := d.coordinators.eraseIdx i } := by
  have hn := h.remove hi
  rw [hn]
  exact ⟨by simp, by simp, by simp, h.requests, h.fresh⟩

lemma Inv.exit (e : ℤ) : (d.exit i e).Inv p := by
  have hn := h.remove hi
  unfold Database.exit
  rw [hn]
  refine ⟨by simp, by simp, by simp, fun ho => ?_, h.fresh⟩
  obtain ⟨slot, hs, hr⟩ := h.requests ho
  exact ⟨_, congrArg (Option.map _) hs, slot.confirmStopped_needsRestart e hr⟩

end

lemma Inv.drop : d.drop.Inv p where
  single := h.single
  active hs hl := by
    obtain ⟨slot, hsl, ha⟩ := h.active hs hl
    refine ⟨slot.requestStop, by simp [Database.drop, hsl, ha], ?_⟩
    rwa [requestStop_active]
  current coordinator hm := by
    have hr : d.drop.authorized = false := by
      cases hsl : d.slot <;>
        grind [drop, authorized, requestStop_authority]
    rw [hr]
    exact (h.current coordinator hm).mono le_rfl (by simp)
  requests ho := by simp [Database.drop] at ho
  fresh := h.fresh

end

variable {e : Database × Bool}

lemma asCoordinator_eq_some {i : ℕ} {p : Phase} {next : Coordinator → Option Database}
    (h : d.asCoordinator i p next = some e) :
    ∃ c, d.coordinators[i]? = some c ∧ next c = some e.1 := by
  unfold asCoordinator at h
  split at h
  case h_1 => cases h
  case h_2 c hc =>
    split_ifs at h
    obtain ⟨a, ha, rfl⟩ := map_eq_some_iff.mp h
    exact ⟨c, hc, ha⟩

lemma Inv.step (h : d.Inv p) {op : DatabaseOperation} (hr : op.isRegister = true → p = true)
    (hs : d.step op = some e) : e.1.Inv p := by
  cases op with
  | request =>
    cases hs
    exact h.request
  | handoff =>
    cases hs
    exact h.handoff
  | register room r =>
    cases hs
    obtain rfl := hr rfl
    exact h.register room r
  | registrationFailed =>
    simp only [Database.step, ite_none_right_eq_some] at hs
    obtain ⟨hno, hs⟩ := hs
    cases hs
    exact h.registrationFailed fun _ => hno
  | lose index =>
    obtain ⟨c, hc, hn⟩ := asCoordinator_eq_some hs
    rw [← some.inj hn]
    exact h.lose (List.getElem?_eq_some_iff.mp hc).1
  | begin index pid n =>
    obtain ⟨c, -, hn⟩ := asCoordinator_eq_some hs
    rw [← some.inj hn]
    exact h.begin index pid n
  | readCatalog index i =>
    obtain ⟨c, -, hn⟩ := asCoordinator_eq_some hs
    rw [← some.inj hn]
    exact h.readCatalog index i
  | act index a =>
    obtain ⟨c, hc, hn⟩ := asCoordinator_eq_some hs
    obtain ⟨-, hn⟩ := ite_none_right_eq_some.mp hn
    rw [← some.inj hn]
    exact h.act (mem_of_getElem? hc) a
  | exit index ec =>
    simp only [Database.step, ite_none_right_eq_some] at hs
    obtain ⟨hi, hs⟩ := hs
    cases hs
    exact h.exit (by simpa using hi) ec
  | drop =>
    cases hs
    exact h.drop

/-- Only coordinators apply what they read. -/
lemma applied_step {op : DatabaseOperation} (hs : d.step op = some e) {a : Application}
    (ha : a ∈ e.1.applied) :
    a ∈ d.applied ∨ ∃ index action coordinator, op = .act index action ∧
      d.coordinators[index]? = some coordinator ∧ a = ⟨action, coordinator, d.handoffs⟩ := by
  cases op with
  | request | handoff | drop =>
    cases hs
    exact .inl (by grind [request, handoff, drop])
  | register room r =>
    cases hs
    exact .inl (by grind [register, reserve])
  | registrationFailed | exit index ec =>
    obtain ⟨-, hs⟩ := ite_none_right_eq_some.mp hs
    cases hs
    exact .inl ha
  | lose index | begin index pid procNumber | readCatalog index i =>
    obtain ⟨c, -, hn⟩ := asCoordinator_eq_some hs
    rw [← some.inj hn] at ha
    exact .inl ha
  | act index action =>
    obtain ⟨c, hc, hn⟩ := asCoordinator_eq_some hs
    obtain ⟨-, hn⟩ := ite_none_right_eq_some.mp hn
    rw [← some.inj hn, act] at ha
    by_cases hg : action = .clear ∨ d.authorized = true
    · rw [if_pos hg] at ha
      rcases mem_cons.mp ha with rfl | ha
      · exact .inr ⟨index, action, c, rfl, hc, rfl⟩
      · exact .inl ha
    · rw [if_neg hg] at ha
      exact .inl ha

/-- A request asks for a scan, or is open in the slot. -/
lemma request_retained : d.request.2 = true ∨ openRequest d.request.1.history = true := by
  unfold request
  split
  · exact .inl rfl
  · cases hr : _ == invalidProcNumber <;> simp

end Database

/-! ## Every interleaving -/

namespace System

variable {s : System}

def Inv (s : System) : Prop := ∀ database, (s.databases database).Inv s.supervised

/-- A step changes one database at most, by an operation on it or by a lost postmaster. -/
lemma step_database {op : Operation} {next : System} (hs : s.step op = some next) (d : ℕ) :
    (next.databases d = s.databases d ∧ (next.supervised = true → s.supervised = true)) ∨
    (next.databases d = (s.databases d).registrationFailed ∧ next.supervised = false) ∨
    ∃ o r, op = .on d o ∧ (o.isRegister = true → next.supervised = true) ∧
      next.supervised = s.supervised ∧ (s.databases d).step o = some r ∧
      next.databases d = r.1 := by
  cases op with
  | takeFullScanRequest =>
    cases hs
    exact .inl ⟨rfl, id⟩
  | postmasterDied e =>
    cases hs
    by_cases hd : d = e
    · exact .inr (.inl ⟨by simp [hd], rfl⟩)
    · exact .inl ⟨by simp [hd], by simp⟩
  | on e o =>
    simp only [System.step] at hs
    split_ifs at hs with hi hr
    · cases hs
      exact .inl ⟨rfl, id⟩
    · obtain ⟨r, hres, rfl⟩ := map_eq_some_iff.mp hs
      by_cases hd : d = e
      · subst hd
        exact .inr (.inr ⟨o, r, rfl, by simpa using hr, rfl, hres, by simp⟩)
      · exact .inl ⟨by simp [hd], id⟩

lemma Inv.step (h : s.Inv) {op : Operation} {next : System} (hs : s.step op = some next) :
    next.Inv := by
  intro d
  obtain ⟨hd, hp⟩ | ⟨hd, hp⟩ | ⟨o, r, -, hr, hp, hst, hd⟩ := step_database hs d
  · obtain ⟨hsi, ha, hc, hre, hf⟩ := h d
    exact hd ▸ ⟨hsi, fun hsu => ha (hp hsu), hc, hre, hf⟩
  · exact hd ▸ hp ▸ (h d).registrationFailed (by simp)
  · rw [hp] at hr ⊢
    exact hd ▸ (h d).step hr hst

lemma Inv.initial : initial.Inv := fun _ => .initial

lemma Inv.run {os : List Operation} (h : run os = some s) : s.Inv :=
  foldlM_eq_some (I := fun _ s => s.Inv) (fun _ _ _ _ _ hi hs => hi.step hs) [] .initial h

/-- A run whose coordinators clear in time logs no clearing of a stale read. -/
lemma ClearsInTime.run {os : List Operation} {t : System} (hc : s.ClearsInTime os)
    (hr : os.foldlM step s = some t)
    (h : ∀ database, ∀ a ∈ (s.databases database).applied, a.action = .clear →
      ∀ n, a.coordinator.snapshot = some n → n.takenAt = a.handoffs) :
    ∀ database, ∀ a ∈ (t.databases database).applied, a.action = .clear →
      ∀ n, a.coordinator.snapshot = some n → n.takenAt = a.handoffs := by
  induction os generalizing s with
  | nil =>
    cases hr
    exact h
  | cons op rest ih =>
    obtain ⟨next, hn, hre⟩ := bind_eq_some_iff.mp hr
    obtain ⟨ht, hl⟩ := hc
    refine ih (hl next hn) hre fun d a ha hcl n hsn => ?_
    obtain ⟨hd, -⟩ | ⟨hd, -⟩ | ⟨o, r, rfl, -, -, hst, hd⟩ := step_database hn d <;> rw [hd] at ha
    · exact h d a ha hcl n hsn
    · exact h d a ha hcl n hsn
    · obtain ho | ⟨_, _, c, rfl, hco, rfl⟩ := applied_step hst ha
      · exact h d a ho hcl n hsn
      · cases hcl
        exact ht c n hco hsn

/-- What holds after any sequence of operations. A coordinator that reconciles or
launches was reserved after the last handoff and so is what it read; if coordinators
clear in time, no read from before a handoff is applied after it at all. -/
structure Guarantees (operations : List Operation) (s : System) : Prop where
  single : ∀ database, (s.databases database).coordinators.length ≤ 1
  requested : ∀ database, database ≠ 0 → ∃ next, s.step (.on database .request) = some next ∧
    (next.rescanAll = true ∨ openRequest (next.databases database).history = true)
  retained : ∀ database, openRequest (s.databases database).history = true →
    ∃ slot, (s.databases database).slot = some slot ∧ slot.needsRestart = true
  fresh : ∀ database, ∀ application ∈ (s.databases database).applied,
    application.action ≠ .clear → application.Fresh
  applied : initial.ClearsInTime operations → ∀ database,
    ∀ application ∈ (s.databases database).applied, ∀ snapshot,
      application.coordinator.snapshot = some snapshot → snapshot.takenAt = application.handoffs

lemma request_step {d : ℕ} (h : d ≠ 0) :
    ∃ next, s.step (.on d .request) = some next ∧
      (next.rescanAll = true ∨ openRequest (next.databases d).history = true) := by
  refine ⟨_, by simp only [step, if_neg h]; rfl, ?_⟩
  obtain hr | ho := (s.databases d).request_retained
  · exact .inl (by simp [hr])
  · exact .inr (by simpa using ho)

/-- Over every interleaving on any number of databases a database has at most one
live coordinator, a request stays in the slot until a later reservation or left a
scan of all databases, and a coordinator from before a handoff neither reconciles
nor launches, nor clears if no handoff follows the reads that coordinators clear by. -/
theorem run_keeps_coordinators {operations : List Operation}
    (hrun : run operations = some s) : Guarantees operations s where
  single database := (Inv.run hrun database).single
  requested _ hd := request_step hd
  retained database := (Inv.run hrun database).requests
  fresh database := (Inv.run hrun database).fresh
  applied hc database application ha snapshot hsn := by
    by_cases hclear : application.action = .clear
    · exact hc.run hrun (fun _ _ hm => nomatch hm) database application ha hclear snapshot hsn
    · exact ((Inv.run hrun database).fresh application ha hclear).taken snapshot hsn

/-- A coordinator that applies what it read, a request and a handoff while it
lives, and its successor. -/
def handedOff : List Operation :=
  [.on 5 (.register true true), .on 5 (.begin 0 71 3), .on 5 (.readCatalog 0 true),
    .on 5 (.act 0 .reconcile), .on 5 .request, .on 5 .handoff, .on 5 (.act 0 .reconcile),
    .on 5 (.exit 0 0), .on 5 (.register true true), .on 5 (.begin 0 72 3),
    .on 5 (.readCatalog 0 true), .on 5 (.act 0 .reconcile)]

theorem handedOff_keeps_coordinators :
    ∃ s, run handedOff = some s ∧ Guarantees handedOff s ∧ (s.databases 5).handoffs = 1 ∧
      (s.databases 5).applied.map (fun application => application.handoffs) = [1, 0] := by
  have hr : ∃ s, run handedOff = some s ∧ (s.databases 5).handoffs = 1 ∧ (s.databases 5).applied.map
    (fun application => application.handoffs) = [1, 0] := ⟨_, rfl, rfl, rfl⟩
  obtain ⟨s, hs, hh, ha⟩ := hr
  exact ⟨s, hs, run_keeps_coordinators hs, hh, ha⟩

/-- The coordinator finds no runtime catalog and a handoff comes before it clears
the workers. -/
def clearedLate : List Operation :=
  [.on 5 (.register true true), .on 5 (.begin 0 71 3), .on 5 (.readCatalog 0 false),
    .on 5 .handoff, .on 5 (.act 0 .clear)]

/-- `clear_database_workers` asks for no authority, so it applies a catalog read
from before the handoff. -/
theorem clearedLate_applies_stale :
    ∃ s, run clearedLate = some s ∧ ∃ application ∈ (s.databases 5).applied,
      ∃ snapshot, application.coordinator.snapshot = some snapshot ∧
        snapshot.takenAt < application.handoffs := by
  refine ⟨_, rfl, ⟨.clear, ⟨.running, 0, some ⟨false, 0⟩⟩, 1⟩, ?_, ⟨false, 0⟩, rfl, ?_⟩
  · exact mem_singleton.mpr rfl
  · decide

end System

end LagoDB.Coordinators
