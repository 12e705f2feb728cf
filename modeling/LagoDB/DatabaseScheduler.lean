import Mathlib.Data.List.Nodup

/-!
# The queue of databases waiting for a coordinator

A candidate database is idle, queued, or put off until a deadline. The queue and the map of
candidates are changed together.
-/
namespace LagoDB.DatabaseScheduler

open Function

inductive DatabaseSchedule where
  | idle
  | pending
  | retryAt (notBefore : ℕ)
  deriving DecidableEq

def DatabaseSchedule.isDue (now : ℕ) : DatabaseSchedule → Bool
  | .retryAt notBefore => notBefore ≤ now
  | _ => false

structure Scheduler where
  pending : List ℕ
  databases : ℕ → Option DatabaseSchedule

open Scheduler

namespace Scheduler

variable (s : Scheduler)

def new : Scheduler := ⟨[], fun _ => none⟩

def enqueue (oid : ℕ) : Scheduler :=
  if oid = 0 then s
  else if s.databases oid = some .idle then
    ⟨s.pending ++ [oid], update s.databases oid (some .pending)⟩
  else s

def deferRetry (oid notBefore : ℕ) : Scheduler where
  pending := s.pending.filter (· ≠ oid)
  databases :=
    if (s.databases oid).isSome then update s.databases oid (some (.retryAt notBefore))
    else s.databases

def promote (oid : ℕ) : Scheduler :=
  ⟨s.pending ++ [oid], update s.databases oid (some .pending)⟩

/-- `candidates` is the order in which the map lists its keys. -/
def promoteDueRetries (now : ℕ) (candidates : List ℕ) : Scheduler :=
  (candidates.filter fun oid => (s.databases oid).any (·.isDue now)).foldl promote s

/-- One database of the snapshot, and whether it is new. -/
def discover (found : Scheduler × List ℕ) (oid : ℕ) : Scheduler × List ℕ :=
  if (found.1.databases oid).isSome then found
  else (⟨found.1.pending, update found.1.databases oid (some .idle)⟩, found.2 ++ [oid])

def reconcileLive (live : List ℕ) : Scheduler × List ℕ :=
  live.foldl discover (⟨s.pending.filter (· ∈ live),
    fun oid => if oid ∈ live then s.databases oid else none⟩, [])

/-- `none` is the panic of a queued database that is not a candidate. -/
def popFront : Option (Option ℕ × Scheduler) :=
  match s.pending with
  | [] => some (none, s)
  | oid :: rest =>
    if (s.databases oid).isSome then
      some (some oid, ⟨rest, update s.databases oid (some .idle)⟩)
    else none

/-- Calls of the scheduler. A hash map lists every key once, in any order. -/
inductive Step : Scheduler → Scheduler → Prop where
  | enqueue (s : Scheduler) (oid : ℕ) : Step s (s.enqueue oid)
  | deferRetry (s : Scheduler) (oid notBefore : ℕ) : Step s (s.deferRetry oid notBefore)
  | promoteDueRetries (s : Scheduler) (now : ℕ) (candidates : List ℕ) (hn : candidates.Nodup)
      (hc : ∀ oid, oid ∈ candidates ↔ (s.databases oid).isSome) :
      Step s (s.promoteDueRetries now candidates)
  | reconcileLive (s : Scheduler) (live : List ℕ) : Step s (s.reconcileLive live).1
  | popFront (s t : Scheduler) (oid : Option ℕ) (h : s.popFront = some (oid, t)) : Step s t

inductive Reachable : Scheduler → Prop where
  | new : Reachable new
  | step {s t : Scheduler} : Reachable s → Step s t → Reachable t

structure Queued : Prop where
  nodup : s.pending.Nodup
  queued : ∀ oid, oid ∈ s.pending ↔ s.databases oid = some .pending

variable {s} {oid : ℕ}

/-- A database that was not queued is queued last. -/
lemma Queued.promote (h : s.Queued) (hs : s.databases oid ≠ some .pending) :
    (s.promote oid).Queued where
  nodup := by
    have hm : oid ∉ s.pending := fun hm => hs ((h.queued oid).mp hm)
    exact h.nodup.append (List.nodup_singleton oid) (by simpa using hm)
  queued other := by
    by_cases ho : other = oid
    · simp [Scheduler.promote, ho]
    · simp [Scheduler.promote, ho, h.queued]

lemma Queued.enqueue (h : s.Queued) (oid : ℕ) : (s.enqueue oid).Queued := by
  unfold Scheduler.enqueue
  split_ifs with hz hi
  · exact h
  · exact h.promote (by simp [hi])
  · exact h

lemma Queued.deferRetry (h : s.Queued) (oid n : ℕ) : (s.deferRetry oid n).Queued where
  nodup := h.nodup.filter _
  queued other := by
    have hq := h.queued other
    by_cases ho : other = oid
    · subst ho
      cases hd : s.databases other <;> simp [Scheduler.deferRetry, hd]
    · cases hd : s.databases oid <;> simp [Scheduler.deferRetry, hd, ho, hq]

/-- The databases still to be promoted are not queued. -/
lemma Queued.promoteAll {due : List ℕ} (hn : due.Nodup) (h : s.Queued)
    (hd : ∀ oid ∈ due, s.databases oid ≠ some .pending) :
    (due.foldl Scheduler.promote s).Queued := by
  induction due generalizing s with
  | nil => exact h
  | cons oid r ih =>
    obtain ⟨ho, hr⟩ := List.nodup_cons.mp hn
    obtain ⟨hs, hd⟩ := List.forall_mem_cons.mp hd
    refine ih hr (h.promote hs) fun o hm => ?_
    have hne : o ≠ oid := fun he => ho (he ▸ hm)
    simpa [Scheduler.promote, hne] using hd o hm

lemma Queued.promoteDueRetries (h : s.Queued) (now : ℕ) {cs : List ℕ}
    (hn : cs.Nodup) : (s.promoteDueRetries now cs).Queued := by
  refine .promoteAll (hn.filter _) h fun oid hm hp => ?_
  simp [hp, DatabaseSchedule.isDue] at hm

lemma Queued.discover {f : Scheduler × List ℕ} (h : f.1.Queued) (oid : ℕ) :
    (Scheduler.discover f oid).1.Queued := by
  unfold Scheduler.discover
  split_ifs with hs
  · exact h
  · refine ⟨h.nodup, fun o => ?_⟩
    by_cases ho : o = oid
    · subst ho
      have hq := h.queued o
      rw [Option.not_isSome_iff_eq_none.mp hs] at hq
      simpa using hq
    · simpa [ho] using h.queued o

lemma Queued.reconcileLive (h : s.Queued) (l : List ℕ) : (s.reconcileLive l).1.Queued := by
  refine List.foldlRecOn (motive := fun (f : Scheduler × List ℕ) => f.1.Queued) l
    _ ?_ fun f hf oid _ => hf.discover oid
  refine ⟨h.nodup.filter _, fun oid => ?_⟩
  by_cases hl : oid ∈ l <;> simp [hl, h.queued]

lemma Queued.popFront (h : s.Queued) : ∃ oid t, s.popFront = some (oid, t) ∧ t.Queued := by
  unfold Scheduler.popFront
  cases hp : s.pending with
  | nil => exact ⟨none, s, rfl, h⟩
  | cons oid r =>
    have hd : s.databases oid = some .pending := (h.queued oid).mp (by simp [hp])
    obtain ⟨ho, hr⟩ := List.nodup_cons.mp (hp ▸ h.nodup)
    refine ⟨some oid, _, by simp only [hd, Option.isSome_some, if_true]; rfl, hr, fun o => ?_⟩
    have hq := h.queued o
    by_cases he : o = oid
    · simp [he, ho]
    · simpa [hp, he] using hq

lemma Queued.step {t : Scheduler} (h : s.Queued) (hs : Step s t) : t.Queued := by
  cases hs with
  | enqueue oid => exact h.enqueue oid
  | deferRetry oid n => exact h.deferRetry oid n
  | promoteDueRetries now c hn hc => exact h.promoteDueRetries now hn
  | reconcileLive l => exact h.reconcileLive l
  | popFront _ oid hp =>
    obtain ⟨oid', t', hp', ht⟩ := h.popFront
    obtain ⟨-, rfl⟩ := Prod.mk.inj (Option.some.inj (hp'.symm.trans hp))
    exact ht

lemma Reachable.queued (h : Reachable s) : s.Queued := by
  induction h with
  | new => exact ⟨List.nodup_nil, by simp [Scheduler.new]⟩
  | step _ hs ih => exact ih.step hs

/-- After all calls the queue lists the pending candidates, each once, and taking its
first database does not panic. -/
theorem reachable_pendingQueue (h : Reachable s) :
    s.pending.Nodup ∧ (∀ oid, oid ∈ s.pending ↔ s.databases oid = some .pending) ∧
      (∀ oid ∈ s.pending, (s.databases oid).isSome) ∧ s.popFront ≠ none := by
  have hq := h.queued
  obtain ⟨oid, t, hp, -⟩ := hq.popFront
  refine ⟨hq.nodup, hq.queued, fun oid hm => ?_, by simp [hp]⟩
  rw [(hq.queued oid).mp hm]
  rfl

/-- A database is discovered, fails to start, and is queued again after its delay. -/
theorem retried_pendingQueue :
    (((new.reconcileLive [7]).1.deferRetry 7 5).promoteDueRetries 5 [7]).pending = [7] ∧
      (((new.reconcileLive [7]).1.deferRetry 7 5).promoteDueRetries 5 [7]).popFront ≠ none := by
  have hr : Reachable (((new.reconcileLive [7]).1.deferRetry 7 5).promoteDueRetries 5 [7]) :=
    ((Reachable.new.step (.reconcileLive _ [7])).step (.deferRetry _ 7 5)).step
      (.promoteDueRetries _ 5 [7] (by simp) fun oid => by
        by_cases ho : oid = 7 <;> simp [ho, new, reconcileLive,
          discover, deferRetry])
  exact ⟨by decide, (reachable_pendingQueue hr).2.2.2⟩

end Scheduler

end LagoDB.DatabaseScheduler
