import LagoDB.WorkerSlots
import LagoDB.ExceptLoop

/-!
# The worker protocol

Over every order of operations on a slot: one process at a time, no start between
a stop request and the reconciliation after the exit, and no request to run is
lost. One invariant relates the slot's flags to the live process and to what
happened since; each operation keeps it.
-/
namespace LagoDB.Workers

open ExceptLoop

/-! ## Reading a history -/

inductive StopPhase where
  | clear
  | requested
  | exited
  deriving DecidableEq

/-- A stop is settled by the first reconciliation after the process exit. -/
def stopPhase : List Event → StopPhase
  | [] => .clear
  | .stopRequested :: _ => .requested
  | .exited _ :: rest | .startFailed :: rest =>
    match stopPhase rest with
    | .requested => .exited
    | phase => phase
  | .reconciled :: rest | .inserted :: rest =>
    match stopPhase rest with
    | .exited => .clear
    | phase => phase
  | _ :: rest => stopPhase rest

/-- Whether the worker is asked to run: since it last attached it was woken, its
run asked for another, it crashed or was stopped, or it never ran. -/
def runRequested : List Event → Bool
  | [] => true
  | .attached :: _ => false
  | .inserted :: _ | .woken :: _ | .stopRequested :: _ => true
  | .completed schedule :: rest => schedule != .idle || runRequested rest
  | .exited exitCode :: rest => exitCode != 0 || runRequested rest
  | _ :: rest => runRequested rest

section Histories

variable (i : List Event)

lemma stopPhase_reconciled : stopPhase (.reconciled :: i) =
    if stopPhase i = .exited then .clear else stopPhase i := by
  rw [stopPhase]
  cases stopPhase i <;> rfl

lemma stopPhase_inserted : stopPhase (.inserted :: i) =
    if stopPhase i = .exited then .clear else stopPhase i := by
  rw [stopPhase]
  cases stopPhase i <;> rfl

lemma stopPhase_exited (e : ℤ) : stopPhase (.exited e :: i) =
    if stopPhase i = .requested then .exited else stopPhase i := by
  rw [stopPhase]
  cases stopPhase i <;> rfl

lemma stopPhase_startFailed : stopPhase (.startFailed :: i) =
    if stopPhase i = .requested then .exited else stopPhase i := by
  rw [stopPhase]
  cases stopPhase i <;> rfl

end Histories

/-! ## The invariant -/

/-- What the flags of a slot say of its process. -/
@[grind cases]
structure Slot.Coherent (slot : Slot) (processes : List Phase) : Prop where
  pid_nonneg : 0 ≤ slot.pid
  idle : slot.hasActiveProcess = false → processes = []
  starting : slot.processState = .starting → slot.pid = 0 ∧ slot.restartAfterMs = 0 ∧
    (processes = [] ∨ processes = [.launched] ∨
      processes = [.refused] ∧ (slot.wakeRequested = true ∨ slot.stopRequested = true))
  attached : 0 < slot.pid → processes = [.attached]
  delay : slot.needsRestart = false → slot.restartAfterMs = 0
  gate : slot.hasActiveProcess = false → slot.stopRequested = true → slot.needsRestart = true
  registered : slot.stopRequested = false → slot.registrationState = .registered
  present : slot.registrationState ≠ .empty

/-- The slot remembers what its history asks for. -/
@[grind cases]
structure Slot.Remembers (slot : Slot) (history : List Event) : Prop where
  stopping : stopPhase history = .requested → slot.hasActiveProcess = true
  gated : stopPhase history ≠ .clear → slot.stopRequested = true
  idle : runRequested history = true → slot.hasActiveProcess = false → slot.needsRestart = true
  attached : runRequested history = true → 0 < slot.pid →
    slot.needsRestart = true ∨ slot.wakeRequested = true ∨ slot.stopRequested = true

/-- A key without a slot has no process, and no stop waits for one. -/
def System.Inv (s : System) : Prop :=
  match s.slot with
  | none => s.processes = [] ∧ stopPhase s.history ≠ .requested
  | some slot => slot.Coherent s.processes ∧ slot.Remembers s.history

/-! ## Slot operations -/

attribute [local grind] Slot.hasActiveProcess Slot.requestStop

section Slots

variable {slot : Slot} {ps : List Phase} {i : List Event} {now : ℤ}

attribute [local grind] Slot.requestWakeup

lemma requestWakeup_coherent (h : slot.Coherent ps) : slot.requestWakeup.Coherent ps := by
  constructor <;> grind

attribute [local grind] runRequested stopPhase

lemma requestWakeup_remembers (hc : slot.Coherent ps)
    (h : slot.Remembers i) : slot.requestWakeup.Remembers (.woken :: i) := by
  constructor <;> grind

open Slot

lemma initializeRegistration_coherent (x : ℕ) (w : String) :
    (initializeRegistration x w).Coherent [] := by
  constructor <;> simp [initializeRegistration, empty, hasActiveProcess]

lemma initializeRegistration_remembers (x : ℕ) (w : String) (h : stopPhase i ≠ .requested) :
    (initializeRegistration x w).requestWakeup.Remembers (.inserted :: i) := by
  have hp : stopPhase (.inserted :: i) = .clear := by
    rw [stopPhase_inserted]
    cases hs : stopPhase i <;> simp_all
  constructor <;> simp [hp, initializeRegistration, empty, requestWakeup]

attribute [local grind] Slot.scheduleExistingRestart

lemma reconcilePresent_coherent (h : slot.Coherent ps) : slot.reconcilePresent.Coherent ps := by
  constructor <;> grind [reconcilePresent]

lemma reconcilePresent_remembers (hc : slot.Coherent ps)
    (h : slot.Remembers i) : slot.reconcilePresent.Remembers (.reconciled :: i) := by
  have hp : stopPhase i = .clear ∨ stopPhase i = .requested ∨ stopPhase i = .exited := by
    cases stopPhase i <;> simp
  constructor <;> grind [reconcilePresent, stopPhase_reconciled]

lemma markRemoving_coherent (h : slot.Coherent ps)
    (ha : slot.hasActiveProcess = true) : slot.markRemoving.Coherent ps := by
  constructor <;> grind [markRemoving]

lemma markRemoving_remembers (ha : slot.hasActiveProcess = true) :
    slot.markRemoving.Remembers (.stopRequested :: i) := by
  constructor <;> grind [markRemoving]

lemma prepareTransactionalStop_coherent (h : slot.Coherent ps) :
    slot.prepareTransactionalStop.1.Coherent ps := by
  constructor <;> grind [prepareTransactionalStop]

lemma prepareTransactionalStop_remembers (hc : slot.Coherent ps)
    (hs : slot.prepareTransactionalStop.2 = true) :
    slot.prepareTransactionalStop.1.Remembers (.stopRequested :: i) := by
  constructor <;> grind [prepareTransactionalStop]

attribute [local grind] Slot.restartDelay

lemma ready_idle (hc : slot.Coherent ps) (h : slot.Remembers i)
    (hr : slot.restartDelay now = some 0) :
    ps = [] ∧ slot.hasActiveProcess = false ∧ stopPhase i = .clear := by
  grind

lemma prepareStart_coherent (h : slot.Coherent [])
    (hr : slot.restartDelay now = some 0) : slot.prepareStart.Coherent [.launched] := by
  constructor <;> grind [prepareStart]

lemma prepareStart_remembers (h : slot.Remembers i) (hr : slot.restartDelay now = some 0) :
    slot.prepareStart.Remembers (.launched :: i) := by
  constructor <;> grind [prepareStart]

lemma registrationFailed_coherent {d : Duration} (h : slot.Coherent []) :
    (slot.registrationFailed now d).1.Coherent [] := by
  constructor <;> grind [registrationFailed]

lemma registrationFailed_remembers {d : Duration} (hc : slot.Coherent []) (h : slot.Remembers i) :
    (slot.registrationFailed now d).1.Remembers (.startFailed :: i) := by
  constructor <;> grind [registrationFailed, stopPhase_startFailed]

variable {p : ℤ}

lemma markRunning_coherent (h : slot.Coherent [.launched]) (hp : 0 < p)
    (hs : (slot.markRunning p now).2 = true) : (slot.markRunning p now).1.Coherent [.attached] := by
  constructor <;> grind [markRunning]

lemma markRunning_remembers (h : slot.Remembers i) (hs : (slot.markRunning p now).2 = true) :
    (slot.markRunning p now).1.Remembers (.attached :: i) := by
  constructor <;> grind [markRunning]

lemma refused_coherent (h : slot.Coherent [.launched])
    (hr : ¬(slot.markRunning p now).2 = true) : slot.Coherent [.refused] := by
  constructor <;> grind [markRunning]

variable {c : WorkerSchedule}

lemma completeRun_coherent (h : slot.Coherent [.attached]) :
    (slot.completeRun c now).Coherent [.attached] := by
  cases c <;> constructor <;> grind [completeRun]

lemma completeRun_remembers (hc : slot.Coherent [.attached]) (h : slot.Remembers i) :
    (slot.completeRun c now).Remembers (.completed c :: i) := by
  cases c <;> constructor <;> grind [completeRun]

section Exit

variable {phase : Phase} {e : ℤ} {o : RestartPolicy}

lemma confirmStopped_coherent (h : slot.Coherent [phase])
    (hr : slot.registrationState = .registered) : (slot.confirmStopped now o e).1.Coherent [] := by
  constructor <;> grind [confirmStopped, afterExit]

/-- Only a clean exit without a request leaves nothing to restart. -/
lemma confirmStopped_remembers (hc : slot.Coherent [phase]) (h : slot.Remembers i)
    (hco : phase = .launched → e ≠ 0) (hr : slot.registrationState = .registered) :
    (slot.confirmStopped now o e).1.Remembers (.exited e :: i) := by
  constructor <;> grind [confirmStopped, afterExit, stopPhase_exited]

/-- The exit callback of a live process finds its slot, and removes it when the
catalog row is gone. -/
lemma workerExit_eq (h : slot.Coherent [phase]) :
    Store.workerExit (some slot) now o e = if slot.registrationState = .removing then none else
      some (slot.confirmStopped now o e).1 := by
  have ha : ¬(slot.processState ≠ .starting ∧ slot.pid = 0) := by grind
  have hr : (slot.confirmStopped now o e).1.registrationState = slot.registrationState := by
    grind [confirmStopped, afterExit]
  have hc : (slot.confirmStopped now o e).2.isSome = true := by simp [confirmStopped, ha]
  simp [Store.workerExit, hr, hc]

end Exit

end Slots

/-! ## Steps -/

namespace System

variable {s s' : System}

lemma Inv.of_some {slot : Slot} (h : s.Inv) (hs : s.slot = some slot) :
    slot.Coherent s.processes ∧ slot.Remembers s.history := by
  unfold Inv at h
  rw [hs] at h
  exact h

lemma Inv.of_none (h : s.Inv) (hs : s.slot = none) :
    s.processes = [] ∧ stopPhase s.history ≠ .requested := by
  unfold Inv at h
  rw [hs] at h
  exact h

variable {d : ℕ}

section

variable (h : s.Inv)

include h

/-- A live process is the only one, and its key has a slot. -/
lemma Inv.process {phase : Phase} (hp : s.processes[d]? = some phase) :
    ∃ slot, s.slot = some slot ∧ s.processes = [phase] ∧ d = 0 ∧ slot.Coherent [phase] ∧
      slot.Remembers s.history := by
  cases hs : s.slot with
  | none =>
    rw [(h.of_none hs).1] at hp
    cases hp
  | some slot =>
    obtain ⟨hc, hr⟩ := h.of_some hs
    have hone : s.processes = [] ∨ ∃ o, s.processes = [o] := by grind
    rcases hone with hnil | ⟨o, ho⟩
    · rw [hnil] at hp
      cases hp
    · rw [ho] at hp hc
      cases d with
      | zero =>
        cases hp
        exact ⟨slot, rfl, ho, rfl, hc, hr⟩
      | succ d => cases hp

lemma Inv.reconcile (x : ℕ) (w : String) : (s.reconcile x w).Inv := by
  unfold System.reconcile Store.reconcileRegistration
  cases hs : s.slot with
  | none =>
    obtain ⟨hn, hp⟩ := h.of_none hs
    refine ⟨?_, initializeRegistration_remembers x w hp⟩
    show Slot.Coherent _ s.processes
    rw [hn]
    exact requestWakeup_coherent (initializeRegistration_coherent x w)
  | some slot =>
    obtain ⟨hc, hr⟩ := h.of_some hs
    exact ⟨reconcilePresent_coherent hc, reconcilePresent_remembers hc hr⟩

lemma Inv.remove : s.remove.Inv := by
  unfold System.remove
  split
  next slot hs =>
    obtain ⟨hc, hr⟩ := h.of_some hs
    simp only [Store.removeWorker, hs, Option.bind_some]
    split
    next ha => exact ⟨markRemoving_coherent hc ha, markRemoving_remembers ha⟩
    next hi =>
      rw [Bool.not_eq_true] at hi
      refine ⟨hc.idle hi, fun hre => ?_⟩
      rw [hr.stopping hre] at hi
      cases hi
  next => exact h

lemma Inv.wake : s.wake.Inv := by
  unfold System.wake
  split
  next slot hs =>
    obtain ⟨hc, hr⟩ := h.of_some hs
    exact ⟨requestWakeup_coherent hc, requestWakeup_remembers hc hr⟩
  next => exact h

lemma Inv.stop : s.stop.Inv := by
  unfold System.stop
  split
  next slot hs =>
    obtain ⟨hc, -⟩ := h.of_some hs
    split
    next hst =>
      exact ⟨prepareTransactionalStop_coherent hc, prepareTransactionalStop_remembers hc hst⟩
    next => exact h
  next => exact h

lemma Inv.launch (now : ℤ) (r : Bool) (ls : ℤ) : (s.launch now r ls).Inv := by
  unfold System.launch
  split
  next slot hs =>
    obtain ⟨hc, hr⟩ := h.of_some hs
    split
    next hre =>
      have hn := (ready_idle hc hr hre).1
      rw [hn] at hc
      split
      next =>
        rw [hn]
        exact ⟨prepareStart_coherent hc hre, prepareStart_remembers hr hre⟩
      next =>
        refine ⟨?_, registrationFailed_remembers hc hr⟩
        show Slot.Coherent _ s.processes
        rw [hn]
        exact registrationFailed_coherent hc
    next => exact h
  next => exact h

lemma Inv.registrationFailed (hn : s.processes = []) (now : ℤ) :
    (s.registrationFailed now).Inv := by
  unfold System.registrationFailed
  split
  next slot hs =>
    obtain ⟨hc, hr⟩ := h.of_some hs
    rw [hn] at hc
    refine ⟨?_, registrationFailed_remembers hc hr⟩
    show Slot.Coherent _ s.processes
    rw [hn]
    exact registrationFailed_coherent hc
  next => exact h

lemma Inv.lose (hp : s.processes[d]? = some .launched) :
    Inv { s with processes := s.processes.eraseIdx d } := by
  obtain ⟨slot, hs, ho, rfl, hc, hr⟩ := h.process hp
  simp only [hs, ho, List.eraseIdx_cons_zero]
  refine ⟨?_, hr⟩
  constructor <;> grind

lemma Inv.attach (hp : s.processes[d]? = some .launched) {p : ℤ}
    (hpi : 0 < p) (now : ℤ) : (s.attach d p now).Inv := by
  obtain ⟨slot, hsl, ho, rfl, hc, hr⟩ := h.process hp
  unfold System.attach
  simp only [hsl, ho, List.set_cons_zero]
  split
  next hs => exact ⟨markRunning_coherent hc hpi hs, markRunning_remembers hr hs⟩
  next hre => exact ⟨refused_coherent hc hre, hr⟩

lemma Inv.registrationMissing : s.registrationMissing.Inv := by
  unfold System.registrationMissing
  split
  next slot hs =>
    split
    next ha =>
      simp only [Store.workerRegistrationMissing, hs, Option.map_some, ha, if_true]
      exact ⟨markRemoving_coherent (h.of_some hs).1 ha, markRemoving_remembers ha⟩
    next => exact h
  next => exact h

lemma Inv.complete (hp : s.processes[d]? = some .attached)
    (c : WorkerSchedule) (now : ℤ) : (s.complete c now).Inv := by
  obtain ⟨slot, hs, ho, rfl, hc, hr⟩ := h.process hp
  unfold System.complete
  simp only [hs]
  refine ⟨?_, completeRun_remembers hc hr⟩
  show Slot.Coherent _ s.processes
  rw [ho]
  exact completeRun_coherent hc

lemma Inv.exit {phase : Phase} {e : ℤ} (hp : s.processes[d]? = some phase)
    (hco : phase = .launched → e ≠ 0) (now : ℤ) (o : RestartPolicy) : (s.exit d e now o).Inv := by
  obtain ⟨slot, hs, ho, rfl, hc, hre⟩ := h.process hp
  unfold System.exit
  rw [hs, workerExit_eq hc, ho]
  split
  next =>
    -- The slot leaves the table with its process.
    refine ⟨rfl, ?_⟩
    rw [stopPhase_exited]
    split
    · exact StopPhase.noConfusion
    · assumption
  next hk =>
    have hr : slot.registrationState = .registered := by
      have hpr := hc.present
      cases hst : slot.registrationState <;> simp_all
    exact ⟨confirmStopped_coherent hc hr, confirmStopped_remembers hc hre hco hr⟩

lemma Inv.step {op : Operation} (hs : s.step op = some s') : s'.Inv := by
  cases op with
  | reconcile e w =>
    cases hs
    exact h.reconcile e w
  | remove =>
    cases hs
    exact h.remove
  | wake =>
    cases hs
    exact h.wake
  | stop =>
    cases hs
    exact h.stop
  | launch ns r l =>
    cases hs
    exact h.launch ns r l
  | registrationFailed ns =>
    simp only [System.step] at hs
    split_ifs at hs with hn
    cases hs
    exact h.registrationFailed hn ns
  | lose d =>
    simp only [System.step] at hs
    split_ifs at hs with hp
    cases hs
    exact h.lose hp
  | attach d p ns =>
    simp only [System.step] at hs
    split_ifs at hs with hp
    cases hs
    exact h.attach hp.1 hp.2 ns
  | registrationMissing d =>
    simp only [System.step] at hs
    split_ifs at hs
    cases hs
    exact h.registrationMissing
  | complete d c ns =>
    simp only [System.step] at hs
    split_ifs at hs with hp
    cases hs
    exact h.complete hp c ns
  | exit d exitCode ns policy =>
    simp only [System.step] at hs
    split at hs
    · cases hs
    · next phase hp =>
      split_ifs at hs with he
      cases hs
      exact h.exit hp (fun hl hz => he ⟨hl, hz⟩) ns policy

end

lemma Inv.initial : System.initial.Inv := ⟨rfl, by simp [System.initial, stopPhase]⟩

lemma Inv.run {os : List Operation} (h : System.run os = some s) : s.Inv :=
  foldlM_eq_some (I := fun _ s => s.Inv) (fun _ _ _ _ _ hi hs => hi.step hs) [] .initial h

end System

/-! ## Guarantees -/

/-- What holds after any sequence of operations on the key. -/
structure System.Guarantees (s : System) : Prop where
  single : s.processes.length ≤ 1
  /-- A start succeeds only without an active process, and not between a stop
  request and the reconciliation that follows the exit. -/
  start : ∀ nowMs laterMs, (s.launch nowMs true laterMs).history = .launched :: s.history →
    s.processes = [] ∧ (∀ slot, s.slot = some slot → slot.hasActiveProcess = false) ∧
      stopPhase s.history = .clear
  /-- No request to run is lost. -/
  requests : ∀ slot, s.slot = some slot → slot.registrationState = .registered →
    slot.hasActiveProcess = false → slot.stopRequested = false →
      runRequested s.history = true → slot.needsRestart = true

theorem run_guarantees {operations : List Operation} {s : System}
    (h : System.run operations = some s) : s.Guarantees := by
  have hinv := System.Inv.run h
  constructor
  · by_contra hm
    have hf : 0 < s.processes.length := by omega
    obtain ⟨slot, -, hone, -⟩ := hinv.process (List.getElem?_eq_getElem hf)
    rw [hone] at hm
    exact hm (le_refl 1)
  · intro nowMs l hl
    cases hs : s.slot with
    | none => simp [System.launch, hs] at hl
    | some slot =>
      obtain ⟨hc, hr⟩ := hinv.of_some hs
      by_cases hrea : slot.restartDelay nowMs = some 0
      · obtain ⟨hn, hi, hcl⟩ := ready_idle hc hr hrea
        refine ⟨hn, ?_, hcl⟩
        intro o ho
        rw [← Option.some.inj ho]
        exact hi
      · simp [System.launch, hs, hrea] at hl
  · intro slot hs _ hi _ hre
    exact (hinv.of_some hs).2.idle hre hi

/-- A worker is stopped while it starts, the transaction rolls back, and a wakeup
that arrives during its next run is kept past the clean exit. -/
def stoppedWhileStarting : List Operation :=
  let policy : RestartPolicy := ⟨5 * 10 ^ 9, 60 * 10 ^ 9, 30 * 10 ^ 9⟩
  [.reconcile 2 "compaction", .launch 1000 true 1000, .stop, .attach 0 101 1001,
    .exit 0 0 1002 policy, .reconcile 2 "compaction", .launch 1003 true 1003,
    .attach 0 102 1004, .wake, .complete 0 .idle 1005, .exit 0 0 1006 policy]

theorem stoppedWhileStarting_guarantees :
    ∃ s, System.run stoppedWhileStarting = some s ∧ s.Guarantees ∧
      s.history = [.exited 0, .completed .idle, .woken, .attached, .launched, .reconciled,
        .exited 0, .stopRequested, .launched, .inserted] ∧
      s.slot.map Slot.needsRestart = some true := by
  have hru : ∃ s, System.run stoppedWhileStarting = some s ∧
      s.history = [.exited 0, .completed .idle, .woken, .attached, .launched, .reconciled,
        .exited 0, .stopRequested, .launched, .inserted] ∧
      s.slot.map Slot.needsRestart = some true := ⟨_, rfl, rfl, rfl⟩
  obtain ⟨s, hs, hh, hr⟩ := hru
  exact ⟨s, hs, run_guarantees hs, hh, hr⟩

end LagoDB.Workers
