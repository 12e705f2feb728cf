import LagoDB.WorkerProtocol

/-!
# What may defer a wakeup

An explicit wakeup starts an idle worker at once, unless crashes are being backed
off. A slot keeps one delay for all its reasons, though: a worker that asks for a
later run and then exits abnormally leaves that delay under the count of the earlier
crashes, and it is taken for their backoff.
-/
namespace LagoDB.Workers

/-! ## Delays -/

/-- Milliseconds until the slot's restart time. -/
def Slot.pendingDelay (slot : Slot) (nowMs : ℤ) : ℕ :=
  (max (saturate 64 (slot.restartAfterMs - nowMs)) 0).toNat

/-- The slot still waits after a failed registration. -/
def retryPending : List Event → Bool
  | .startFailed :: _ => true
  | .reconciled :: rest | .woken :: rest => retryPending rest
  | _ => false

/-- A delay within the crash backoff, or the retry of a failed registration. -/
def Slot.Backoff (slot : Slot) (policy : RestartPolicy) (history : List Event) (delay : ℕ) : Prop :=
  delay ≤ (policy.crashBackoff slot.failureCount).asMillis ∨
    retryPending history = true ∧ delay ≤ capacityRetry.asMillis

/-- After an explicit wakeup an idle worker waits for a backoff at most. -/
def System.PromptWakeup (s : System) (policy : RestartPolicy) (nowMs : ℤ) : Prop :=
  ∀ slot, s.slot = some slot → slot.registrationState = .registered →
    slot.hasActiveProcess = false → slot.stopRequested = false →
      ∃ delay, slot.requestWakeup.restartDelay nowMs = some delay ∧
        slot.Backoff policy s.history delay

/-- The clock readings that schedule a restart are no later than `nowMs`, and crashes
are backed off by one policy. -/
def Operation.Before (policy : RestartPolicy) (nowMs : ℤ) : Operation → Prop
  | .launch _ _ time | .registrationFailed time => 0 ≤ time ∧ time ≤ nowMs
  | .exit _ _ time used => 0 ≤ time ∧ time ≤ nowMs ∧ used = policy
  | _ => True

/-- A process that exits abnormally while earlier crashes count has not asked for a
run later than their backoff. -/
def System.ExitsUndelayed (s : System) : Operation → Prop
  | .exit _ exitCode time policy => exitCode ≠ 0 → ∀ slot, s.slot = some slot →
      0 < slot.failureCount → 0 < slot.restartAfterMs →
        slot.pendingDelay time ≤ (policy.crashBackoff slot.failureCount).asMillis
  | _ => True

def System.Undelayed (policy : RestartPolicy) (nowMs : ℤ) : System → List Operation → Prop
  | _, [] => True
  | s, operation :: rest => operation.Before policy nowMs ∧ s.ExitsUndelayed operation ∧
      ∀ s', s.step operation = some s' → Undelayed policy nowMs s' rest

/-! ## Slots -/

attribute [local grind] Slot.hasActiveProcess Slot.requestWakeup

section Slots

variable {slot : Slot} {ps : List Phase} {i : List Event} {l : RestartPolicy} {time now : ℤ}

lemma saturate_eq (v : ℤ) :
    saturate 64 v = max (-9223372036854775808) (min 9223372036854775807 v) := by
  simp [saturate]

open Slot

lemma pendingDelay_le_of_le (ht : time ≤ now) : slot.pendingDelay now ≤ slot.pendingDelay time := by
  unfold pendingDelay
  rw [saturate_eq, saturate_eq]
  omega

lemma pendingDelay_le {ms : ℕ} (hn : 0 ≤ time) (ht : time ≤ now)
    (h : slot.restartAfterMs = saturate 64 (time + clampMillis ms)) :
    slot.pendingDelay now ≤ ms := by
  unfold pendingDelay
  rw [h, saturate_eq, saturate_eq, clampMillis]
  omega

/-- An idle slot that counts crashes waits for a backoff only. -/
def Slot.Deferred (slot : Slot) (policy : RestartPolicy) (nowMs : ℤ) (history : List Event) :
    Prop :=
  slot.hasActiveProcess = false → 0 < slot.failureCount → 0 < slot.restartAfterMs →
    slot.Backoff policy history (slot.pendingDelay nowMs)

lemma requestWakeup_deferred (h : slot.Deferred l now i) :
    slot.requestWakeup.Deferred l now (.woken :: i) := by
  grind [Slot.Deferred, Slot.Backoff, pendingDelay, retryPending]

lemma reconcilePresent_deferred (h : slot.Deferred l now i) :
    slot.reconcilePresent.Deferred l now (.reconciled :: i) := by
  grind [Slot.Deferred, Slot.Backoff, pendingDelay, reconcilePresent,
    scheduleExistingRestart, retryPending]

lemma registrationFailed_deferred (hco : slot.Coherent []) (hn : 0 ≤ time)
    (ht : time ≤ now) (h : slot.Deferred l now i) :
    (slot.registrationFailed time capacityRetry).1.Deferred l now (.startFailed :: i) := by
  intro hi hc hd
  -- A slot whose start failed has no delay of its own to keep.
  have hca : (slot.registrationFailed time capacityRetry).1 = slot ∨
      (slot.registrationFailed time capacityRetry).1.restartAfterMs =
        saturate 64 (time + clampMillis capacityRetry.asMillis) := by
    grind [registrationFailed, scheduleExistingRestart, restartDelay]
  rcases hca with hs | hr
  · rw [hs] at hi hc hd ⊢
    exact (h hi hc hd).imp_right fun hp => ⟨rfl, hp.2⟩
  · exact .inr ⟨rfl, pendingDelay_le hn ht hr⟩

lemma confirmStopped_deferred {p : Phase} {e : ℤ} (hco : slot.Coherent [p])
    (hn : 0 ≤ time) (ht : time ≤ now) (h : e ≠ 0 → 0 < slot.failureCount → 0 < slot.restartAfterMs →
      slot.pendingDelay time ≤ (l.crashBackoff slot.failureCount).asMillis) :
    (slot.confirmStopped time l e).1.Deferred l now (.exited e :: i) := by
  intro hi hc hd
  refine .inl ?_
  -- The delay of a crash, or one that stood in the slot before an abnormal exit.
  have hca : (slot.confirmStopped time l e).1.restartAfterMs = saturate 64
        (time + clampMillis (l.crashBackoff
          (slot.confirmStopped time l e).1.failureCount).asMillis) ∨
      e ≠ 0 ∧ (slot.confirmStopped time l e).1.failureCount =
        slot.failureCount ∧ (slot.confirmStopped time l e).1.restartAfterMs =
        slot.restartAfterMs := by
    have ha : ¬(slot.processState ≠ .starting ∧ slot.pid = 0) := by grind
    simp only [confirmStopped, if_neg ha, afterExit, scheduleExistingRestart] at hc hd ⊢
    split_ifs at hc hd ⊢ <;> simp_all
  rcases hca with hcr | ⟨hcod, hf, hk⟩
  · exact pendingDelay_le hn ht hcr
  · rw [hf] at hc ⊢
    rw [hk] at hd
    unfold pendingDelay
    rw [hk]
    exact (pendingDelay_le_of_le ht).trans (h hcod hc hd)

lemma Slot.Deferred.of_active (h : slot.hasActiveProcess = true) : slot.Deferred l now i := by
  intro hi
  rw [h] at hi
  cases hi

end Slots

/-! ## Runs -/

namespace System

variable {s s' : System} {l : RestartPolicy} {nowMs : ℤ}

def Deferral (s : System) (policy : RestartPolicy) (nowMs : ℤ) : Prop :=
  ∀ slot, s.slot = some slot → slot.Deferred policy nowMs s.history

lemma Deferral.reconcile (h : s.Deferral l nowMs) (x : ℕ) (w : String) :
    (s.reconcile x w).Deferral l nowMs := by
  rintro _ ⟨⟩
  unfold System.reconcile Store.reconcileRegistration record
  cases hs : s.slot with
  | none => simp [Slot.Deferred, Slot.initializeRegistration, Slot.empty, Slot.requestWakeup]
  | some slot => exact reconcilePresent_deferred (h slot hs)

lemma Deferral.launch (hi : s.Inv) (h : s.Deferral l nowMs) {r : Bool}
    {rs ls : ℤ} (hn : 0 ≤ ls) (hl : ls ≤ nowMs) : (s.launch rs r ls).Deferral l nowMs := by
  unfold System.launch
  split
  next slot hs =>
    obtain ⟨hc, hr⟩ := hi.of_some hs
    split_ifs with hrea hre
    · rintro _ ⟨⟩
      exact .of_active (by simp [Slot.prepareStart, Slot.hasActiveProcess])
    · rintro _ ⟨⟩
      rw [(ready_idle hc hr hrea).1] at hc
      exact registrationFailed_deferred hc hn hl (h slot hs)
    · exact h
  next => exact h

lemma Deferral.exit {i : ℕ} {p : Phase} {e time : ℤ} (hi : s.Inv)
    (hp : s.processes[i]? = some p) (hn : 0 ≤ time) (ht : time ≤ nowMs)
    (he : s.ExitsUndelayed (.exit i e time l)) : (s.exit i e time l).Deferral l nowMs := by
  obtain ⟨slot, hs, -, rfl, hc, -⟩ := hi.process hp
  unfold System.exit
  rw [hs, workerExit_eq hc]
  split_ifs
  · rintro _ ⟨⟩
  · rintro _ ⟨⟩
    exact confirmStopped_deferred hc hn ht fun hco => he hco slot hs

lemma exit_eq_some {i : ℕ} {e time : ℤ} (h : s.step (.exit i e time l) = some s') :
    ∃ p, s.processes[i]? = some p ∧ s.exit i e time l = s' := by
  simp only [System.step] at h
  split at h
  · cases h
  · next p hp =>
    split_ifs at h
    exact ⟨p, hp, Option.some.inj h⟩

lemma Deferral.step {op : Operation} (hi : s.Inv) (h : s.Deferral l nowMs)
    (hb : op.Before l nowMs) (he : s.ExitsUndelayed op)
    (hs : s.step op = some s') : s'.Deferral l nowMs := by
  cases op with
  | reconcile o w =>
    cases hs
    exact h.reconcile o w
  | remove =>
    cases hs
    intro slot hsl
    grind [Deferral, System.remove, Store.removeWorker, record, Slot.markRemoving,
      Slot.requestStop, Slot.Deferred]
  | wake =>
    cases hs
    unfold System.wake
    split
    next slot hsl =>
      rintro _ ⟨⟩
      exact requestWakeup_deferred (h slot hsl)
    next => exact h
  | stop =>
    cases hs
    intro slot hsl
    grind [Deferral, System.stop, record, Slot.prepareTransactionalStop, Slot.requestStop,
      Slot.Deferred, System.Inv]
  | launch rm r m =>
    cases hs
    exact h.launch hi hb.1 hb.2
  | registrationFailed time =>
    simp only [System.step] at hs
    split_ifs at hs with hno
    cases hs
    unfold System.registrationFailed
    split
    next slot hsl =>
      rintro _ ⟨⟩
      have hc := (hi.of_some hsl).1
      rw [hno] at hc
      exact registrationFailed_deferred hc hb.1 hb.2 (h slot hsl)
    next => exact h
  | lose i =>
    simp only [System.step] at hs
    split_ifs at hs
    cases hs
    exact h
  | attach i d time =>
    grind [System.step, Deferral, System.attach, Slot.markRunning, Slot.Deferred]
  | registrationMissing i =>
    grind [System.step, Deferral, System.registrationMissing, Store.workerRegistrationMissing,
      record, Slot.markRemoving, Slot.requestStop, Slot.Deferred]
  | complete i c time =>
    simp only [System.step] at hs
    split_ifs at hs with hp
    cases hs
    obtain ⟨slot, hsl, -, rfl, hc, -⟩ := hi.process hp
    unfold System.complete
    rw [hsl]
    rintro _ ⟨⟩
    exact .of_active (by cases c <;> grind [Slot.completeRun])
  | exit i e time u =>
    obtain ⟨hn, ht, rfl⟩ := hb
    obtain ⟨p, hp, rfl⟩ := exit_eq_some hs
    exact .exit hi hp hn ht he

variable {os : List Operation}

lemma Deferral.run (hi : s.Inv) (h : s.Deferral l nowMs) (ho : Undelayed l nowMs s os)
    (hru : os.foldlM System.step s = some s') : s'.Inv ∧ s'.Deferral l nowMs := by
  induction os generalizing s with
  | nil =>
    cases hru
    exact ⟨hi, h⟩
  | cons o r ih =>
    obtain ⟨hb, he, hr⟩ := ho
    obtain ⟨n, hs, ht⟩ := Option.bind_eq_some_iff.mp hru
    exact ih (hi.step hs) (h.step hi hb he hs) (hr n hs) ht

lemma Deferral.promptWakeup (hin : s.Inv) (hn : 0 ≤ nowMs) (h : s.Deferral l nowMs) :
    s.PromptWakeup l nowMs := by
  intro slot hs hr hi hst
  have hc := (hin.of_some hs).1
  by_cases hb : 0 < slot.failureCount ∧ 0 < slot.restartAfterMs
  · refine ⟨slot.pendingDelay nowMs, ?_, h slot hs hi hb.1 hb.2⟩
    grind [Slot.restartDelay, Slot.pendingDelay]
  · refine ⟨0, ?_, .inl (Nat.zero_le _)⟩
    have hz : (max (saturate 64 (0 - nowMs)) 0).toNat = 0 := by
      rw [saturate_eq]
      omega
    grind [Slot.restartDelay]

lemma Deferral.of_run (hr : System.run os = some s) (ho : Undelayed l nowMs initial os) :
    s.Inv ∧ s.Deferral l nowMs :=
  Deferral.run .initial (fun _ hs => nomatch hs) ho hr

/-- Wakeups are prompt after every run without such an exit, and an exit of a
registered worker that is not being stopped keeps them prompt only as such. -/
theorem run_promptWakeup_iff {operations : List Operation} (policy : RestartPolicy)
    (hrun : System.run operations = some s) :
    (∀ nowMs, 0 ≤ nowMs → Undelayed policy nowMs initial operations → s.PromptWakeup policy nowMs) ∧
    ∀ index exitCode time s', 0 ≤ time → Undelayed policy time initial operations →
      (∀ slot, s.slot = some slot →
        slot.registrationState = .registered ∧ slot.stopRequested = false) →
      s.step (.exit index exitCode time policy) = some s' →
        (s'.PromptWakeup policy time ↔ s.ExitsUndelayed (.exit index exitCode time policy)) := by
  constructor
  · intro nowMs hn ho
    obtain ⟨hinv, hd⟩ := Deferral.of_run hrun ho
    exact hd.promptWakeup hinv hn
  · intro index exitCode time s' ht ho hr hst
    obtain ⟨hinv, hd⟩ := Deferral.of_run hrun ho
    constructor
    · intro hpr hcod slot hsl hco hde
      obtain ⟨hs, hsto⟩ := hr slot hsl
      obtain ⟨p, hp, he⟩ := exit_eq_some hst
      obtain ⟨o, hoth, -, rfl, hc, -⟩ := hinv.process hp
      cases hsl.symm.trans hoth
      have hre : slot.needsRestart = true := by grind
      have ha : ¬(slot.processState ≠ .starting ∧ slot.pid = 0) := by grind
      have hsl' : s'.slot = some { slot with
          pid := 0, startTimeMs := 0, processState := .restarting } := by
        rw [← he, System.exit, hsl, workerExit_eq hc, if_neg (by simp [hs])]
        simp [Slot.confirmStopped, Slot.afterExit, Slot.scheduleExistingRestart, ha, hcod,
          hs, hsto, hre]
      obtain ⟨d, hw, hb⟩ := hpr _ hsl' hs rfl hsto
      have hk : d = slot.pendingDelay time := by
        simp only [Slot.requestWakeup, Slot.restartDelay, hco, hde] at hw
        simpa [hs, hsto, hre, Slot.pendingDelay] using hw.symm
      rcases hb with hcr | ⟨hret, -⟩
      · exact hk ▸ hcr
      · rw [← he] at hret
        cases hret
    · intro hexi
      have hbe : (Operation.exit index exitCode time policy).Before policy time :=
        ⟨ht, le_refl time, rfl⟩
      exact (hd.step hinv hbe hexi hst).promptWakeup (hinv.step hst) ht

def secondsPolicy : RestartPolicy := ⟨5 * 10 ^ 9, 60 * 10 ^ 9, 30 * 10 ^ 9⟩

def crashedOnce : List Operation :=
  [.reconcile 2 "compaction", .launch 1000 true 1000, .attach 0 101 1001,
    .exit 0 1 1002 secondsPolicy]

/-- The next run asks to run again in an hour, and its process exits with code 1. -/
def crashedAfterRequest : List Operation :=
  crashedOnce ++ [.launch 6002 true 6002, .attach 0 102 6003,
    .complete 0 (.runAfter (3600 * 10 ^ 9)) 6004, .exit 0 1 6005 secondsPolicy]

theorem crashedAfterRequest_defers_wakeup :
    ∃ s slot, System.run crashedAfterRequest = some s ∧ s.slot = some slot ∧
      slot.registrationState = .registered ∧ slot.hasActiveProcess = false ∧
      slot.stopRequested = false ∧ slot.requestWakeup.restartDelay 6006 = some 3599998 ∧
      (secondsPolicy.crashBackoff slot.failureCount).asMillis = 5000 ∧
      retryPending s.history = false :=
  ⟨_, _, rfl, rfl, rfl, rfl, rfl, by decide, by decide, rfl⟩

theorem crashedOnce_promptWakeup :
    ∃ s, System.run crashedOnce = some s ∧ s.PromptWakeup secondsPolicy 1003 := by
  have hr : ∃ s, System.run crashedOnce = some s := ⟨_, rfl⟩
  obtain ⟨s, hs⟩ := hr
  refine ⟨s, hs, (run_promptWakeup_iff secondsPolicy hs).1 1003 (by decide) ?_⟩
  refine ⟨trivial, trivial, ?_⟩
  rintro _ ⟨⟩
  refine ⟨⟨by decide, by decide⟩, trivial, ?_⟩
  rintro _ ⟨⟩
  refine ⟨trivial, trivial, ?_⟩
  rintro _ ⟨⟩
  refine ⟨⟨by decide, by decide, rfl⟩, ?_, fun _ _ => trivial⟩
  rintro - slot ⟨⟩ hc
  exact absurd hc (by decide)

end System

end LagoDB.Workers
