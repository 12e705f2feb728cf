import LagoDB.StorageResources
import LagoDB.TableState
import LagoDB.VisibleDelta
import Mathlib.Data.List.Nodup

/-!
# Files of the action log and of the storage registry

The action log names files in its batches, the storage registry tracks them. Both see
the same subtransactions. The reference is a ledger of what was created, with a full copy
for every subtransaction.
-/
namespace LagoDB.StorageResources

open ActionLog TableState Savepoint List TxTableActionLog StorageResourceRegistry StorageResource

variable {T : Provider} {F : Type}

/-! ## Named files -/

/-- The files an action names as created. -/
def actionPaths : TxTableAction T → List String
  | .data epoch => epoch.batches.flatMap fun batch => T.createdFilePaths batch.delta
  | _ => []

def namedPaths (log : TxTableActionLog T) : List String := log.actions.flatMap actionPaths

def operationPaths : Operation T F → List String
  | .stage (.batch batch) => T.createdFilePaths batch.delta
  | _ => []

variable (log : TxTableActionLog T)

@[simp] lemma namedPaths_strip : namedPaths log.strip = namedPaths log := by
  have ha (a : TxTableAction T) : actionPaths a.strip = actionPaths a := by
    cases a <;> rfl
  simp [namedPaths, flatMap_map, ha]

lemma namedPaths_append {log log' : TxTableActionLog T} {act : TxTableAction T}
    (h : log'.actions = log.actions ++ [act]) :
    namedPaths log' = namedPaths log ++ actionPaths act := by
  simp [namedPaths, h]

lemma namedPaths_pushBatch (b : TxWriteBatch T) :
    namedPaths (log.pushBatch b) = namedPaths log ++ T.createdFilePaths b.delta := by
  cases hl : lastEpoch log.actions with
  | none =>
    have ha : (log.pushBatch b).actions = log.actions ++ [.data (TxDataEpoch.empty.push b)] := by
      simp only [pushBatch, hl]
    rw [namedPaths_append ha]
    simp [actionPaths, TxDataEpoch.push, TxDataEpoch.empty]
  | some e =>
    obtain ⟨i, hi⟩ := lastEpoch_eq_some hl
    have ha : (log.pushBatch b).actions = i ++ [.data (e.push b)] := by
      simp only [pushBatch, hl]
      rw [hi, mapLastEpoch_concat]
    simp [namedPaths, ha, hi, actionPaths, TxDataEpoch.push]

lemma namedPaths_apply (op : Operation T F) (v : TableView T) {path : String}
    (h : path ∈ namedPaths (op.apply v).log) :
    path ∈ namedPaths v.log ∨ path ∈ operationPaths op := by
  have hu {next : TxTableActionLog T}
      (hn : path ∈ namedPaths next → path ∈ namedPaths v.log ∨ path ∈ operationPaths op)
      (hp : path ∈ namedPaths (unlessExclusive v.log next)) :
      path ∈ namedPaths v.log ∨ path ∈ operationPaths op := by
    unfold unlessExclusive at hp
    split at hp
    · exact .inl hp
    · exact hn hp
  have hpl {next : TxTableActionLog T} {a : TxTableAction T}
      (hn : next.actions = v.log.actions ++ [a]) (ha : actionPaths a = [])
      (hp : path ∈ namedPaths next) : path ∈ namedPaths v.log := by
    rwa [namedPaths_append hn, ha, append_nil] at hp
  cases op with
  | rebuild f => simp [Operation.apply, namedPaths, empty] at h
  | stage m =>
    rw [Operation.apply, namedPaths_strip] at h
    cases m with
    | batch batch =>
      simp only [Mutation.stage] at h
      split_ifs at h with he
      · exact .inl h
      · refine hu (fun hp => ?_) h
        rw [recordBatch, if_neg he, namedPaths_pushBatch, mem_append] at hp
        exact hp
    | schema u =>
      simp only [Mutation.stage] at h
      split_ifs at h with he
      · exact .inl h
      · have hn : (v.log.stageSchema u).actions = v.log.actions ++ [.schema u] := by
          simp [stageSchema, he]
        exact hu (fun hp => .inl (hpl hn rfl hp)) h
    | properties | truncate | drop => exact hu (fun hp => .inl (hpl rfl rfl hp)) h
    | exclusive a =>
      simp only [Mutation.stage, stageExclusive] at h
      split_ifs at h with he
      · exact .inl (hpl rfl rfl h)
      · exact .inl h

/-! ## A transaction -/

/-- A table and the storage registry within one transaction. `cleaned` lists the resources
whose abort callback has run. -/
structure Transaction (T : Provider) (F : Type) where
  nestLevel : ℕ
  table : ManagedTableState T F
  storage : StorageResourceRegistry StorageResource
  cleaned : List StorageResource

open Transaction

/-- Writes to the table and creations of files. -/
abbrev FileEvent (T : Provider) (F : Type) := Event (Operation T F ⊕ StorageResource)

namespace Transaction

def new : Transaction T F := ⟨1, .new, .new, []⟩

/-- Both resources are called once for the level that ends. -/
def step (tx : Transaction T F) : FileEvent T F → Transaction T F
  | .act (.inl op) => { tx with table := op.act tx.nestLevel tx.table }
  | .act (.inr resource) => { tx with storage := tx.storage.track tx.nestLevel resource }
  | .start => { tx with nestLevel := tx.nestLevel + 1 }
  | .release =>
    if 2 ≤ tx.nestLevel then
      { tx with
        nestLevel := tx.nestLevel - 1
        table := tx.table.promoteToLevel tx.nestLevel
        storage := tx.storage.promoteSubtransactionResources tx.nestLevel }
    else tx
  | .abort =>
    if 2 ≤ tx.nestLevel then
      let (aborted, storage) := tx.storage.takeAbortedSubtransactionResources tx.nestLevel
      { nestLevel := tx.nestLevel - 1
        table := tx.table.rollbackToLevel tx.nestLevel
        storage := storage
        cleaned := tx.cleaned ++ aborted.map TrackedResource.resource }
    else tx

def run (events : List (FileEvent T F)) : Transaction T F := events.foldl step new

/-- The table and the registry as one leveled component. -/
def session (tx : Transaction T F) :
    Session (ManagedTableState T F × StorageResourceRegistry StorageResource) :=
  ⟨tx.nestLevel, tx.table, tx.storage⟩

def cleanedPaths (tx : Transaction T F) : List String := tx.cleaned.map path

end Transaction

def tableAndStorage (T : Provider) (F : Type) :
    Component (ManagedTableState T F × StorageResourceRegistry StorageResource)
      (TableView T × List String) (Operation T F ⊕ StorageResource) :=
  (managedTable T F).prod storageRegistry

lemma session_step (tx : Transaction T F) (e : FileEvent T F) :
    (tx.step e).session = (tableAndStorage T F).step tx.session e := by
  cases e with
  | act op => cases op <;> rfl
  | start => rfl
  | release | abort =>
    by_cases hl : 2 ≤ tx.nestLevel
    · rw [step, if_pos hl]
      exact (if_pos hl).symm
    · rw [step, if_neg hl]
      exact (if_neg hl).symm

/-! ## The ledger -/

/-- Every file created so far, and the table with its surviving files, copied at the start
of each subtransaction. -/
structure Ledger (T : Provider) where
  created : List String
  reference : Reference (TableView T × List String)

namespace Ledger

def new : Ledger T := ⟨[], ⟨⟨.empty, false⟩, []⟩, []⟩

/-- The files no abort has undone. -/
def surviving (ledger : Ledger T) : List String := ledger.reference.current.2

def step (ledger : Ledger T) (event : FileEvent T F) : Ledger T where
  created :=
    match event with
    | .act (.inr resource) => ledger.created ++ [resource.path]
    | _ => ledger.created
  reference := ledger.reference.step (tableAndStorage T F).apply event

def run (events : List (FileEvent T F)) : Ledger T := events.foldl step new

/-- A file is created under a new name, and a batch names files that have survived. -/
def Allows (ledger : Ledger T) : FileEvent T F → Prop
  | .act (.inl op) => ∀ path ∈ operationPaths op, path ∈ ledger.surviving
  | .act (.inr resource) => resource.path ∉ ledger.created
  | .start | .release | .abort => True

/-- Every event is allowed when it comes. -/
def Admits : Ledger T → List (FileEvent T F) → Prop
  | _, [] => True
  | ledger, event :: rest => ledger.Allows event ∧ Admits (ledger.step event) rest

end Ledger

/-- The transaction agrees with the ledger, which holds every file once: it is tracked, or
it was cleaned up. -/
structure Agrees (tx : Transaction T F) (ledger : Ledger T) : Prop where
  reference : Component.Matches (tableAndStorage T F) tx.session ledger.reference
  named : ∀ view ∈ ledger.reference.current :: ledger.reference.copies,
    ∀ path ∈ namedPaths view.1.log, path ∈ view.2
  account : ledger.created.Perm (tx.storage.trackedPaths ++ tx.cleanedPaths)
  fresh : ledger.created.Nodup

lemma Agrees.new : Agrees (new : Transaction T F) Ledger.new where
  reference := by
    refine ⟨rfl, ⟨ManagedTableState.bounded_new 1, ?_⟩, rfl, trivial⟩
    exact ⟨by simp [Transaction.session, Transaction.new, StorageResourceRegistry.new], rfl⟩
  named := by simp [Ledger.new, namedPaths, empty]
  account := List.Perm.refl _
  fresh := nodup_nil

variable {tx : Transaction T F} {l : Ledger T}

lemma Agrees.step (h : Agrees tx l) (v : FileEvent T F) (ha : l.Allows v) :
    Agrees (tx.step v) (l.step v) := by
  have hm : Component.Matches (tableAndStorage T F) (tx.step v).session (l.step v).reference := by
    rw [session_step]
    exact h.reference.step v
  cases v with
  | act op =>
    cases op with
    | inl op =>
      refine ⟨hm, ?_, h.account, h.fresh⟩
      refine forall_mem_cons.mpr ⟨fun path hp => ?_, fun view hv =>
        h.named view (mem_cons_of_mem _ hv)⟩
      rcases namedPaths_apply op l.reference.current.1 hp with ho | hn
      · exact h.named _ mem_cons_self path ho
      · exact ha path hn
    | inr r =>
      have hatt : tx.storage.metadata.activeAttempt = none := h.reference.inv.2.attempt
      refine ⟨hm, ?_, ?_, ?_⟩
      · refine forall_mem_cons.mpr ⟨fun path hp => ?_, fun view hv =>
          h.named view (mem_cons_of_mem _ hv)⟩
        exact mem_append_left _ (h.named _ mem_cons_self path hp)
      · have ht := trackedPaths_track hatt tx.nestLevel r
        simp only [Transaction.step, Ledger.step, ht, append_assoc, singleton_append]
        exact ((perm_append_singleton _ _).trans (h.account.cons _)).trans perm_middle.symm
      · have hl : [r.path].Nodup := nodup_singleton _
        exact h.fresh.append hl (disjoint_singleton.mpr ha)
  | start => exact ⟨hm, forall_mem_cons.mpr ⟨h.named _ mem_cons_self, h.named⟩, h.account, h.fresh⟩
  | release =>
    refine ⟨hm, ?_, ?_, h.fresh⟩
    · refine forall_mem_cons.mpr ⟨h.named _ mem_cons_self, fun view hv => ?_⟩
      exact h.named view (mem_cons_of_mem _ (mem_of_mem_tail hv))
    · simp only [Transaction.step]
      split_ifs
      · rw [trackedPaths_promote]
        exact h.account
      · exact h.account
  | abort =>
    refine ⟨hm, ?_, ?_, h.fresh⟩
    · simp only [Ledger.step, Reference.step]
      split
      next => exact h.named
      next c rest hco =>
        intro view hv
        refine h.named view (mem_cons_of_mem _ ?_)
        rw [hco]
        exact hv
    · simp only [Transaction.step]
      split_ifs
      · have hs := tx.storage.trackedPaths_abort tx.nestLevel
        have hc : (tx.cleaned ++ (tx.storage.takeAbortedSubtransactionResources
            tx.nestLevel).1.map TrackedResource.resource).map path =
            tx.cleanedPaths ++ (tx.storage.takeAbortedSubtransactionResources
              tx.nestLevel).1.map fun e => e.resource.path := by
          simp [cleanedPaths, Function.comp_def]
        simp only [cleanedPaths, hc]
        refine (h.account.trans (hs.append_right _)).trans ?_
        rw [append_assoc]
        exact (perm_append_comm.append_left _)
      · exact h.account

lemma Agrees.run (h : Agrees tx l) (es : List (FileEvent T F)) (ha : l.Admits es) :
    Agrees (es.foldl Transaction.step tx) (es.foldl Ledger.step l) := by
  induction es generalizing tx l with
  | nil => exact h
  | cons e r ih => exact ih (h.step e ha.1) ha.2

/-! ## Surviving and aborted files -/

/-- The log names tracked files, and an aborted file is cleaned up once and named by no
batch. -/
structure FilesAgree (tx : Transaction T F) (ledger : Ledger T) : Prop where
  tracked : tx.storage.trackedPaths = ledger.surviving
  named : ∀ path ∈ namedPaths tx.table.transaction.actions,
    path ∈ tx.storage.trackedPaths ∧ path ∉ tx.cleanedPaths
  aborted : ∀ path ∈ ledger.created, path ∉ ledger.surviving →
    tx.cleanedPaths.count path = 1 ∧ path ∉ namedPaths tx.table.transaction.actions

lemma Agrees.files (h : Agrees tx l) : FilesAgree tx l := by
  have ht : tx.storage.trackedPaths = l.surviving := congrArg Prod.snd h.reference.current
  have hlo : tx.table.transaction.actions.strip = l.reference.current.1.log :=
    congrArg (fun v => v.1.log) h.reference.current
  have hn {p : String} (hp : p ∈ namedPaths tx.table.transaction.actions) :
      p ∈ tx.storage.trackedPaths := by
    rw [← namedPaths_strip, hlo] at hp
    rw [ht]
    exact h.named _ mem_cons_self p hp
  have hu : (tx.storage.trackedPaths ++ tx.cleanedPaths).Nodup := h.account.nodup_iff.mp h.fresh
  refine ⟨ht, fun p hp => ⟨hn hp, ?_⟩, fun p hc hl => ⟨?_, ?_⟩⟩
  · exact disjoint_of_nodup_append hu (hn hp)
  · have hm : p ∈ tx.cleanedPaths := by
      have hs := h.account.mem_iff.mp hc
      rw [mem_append, ht] at hs
      exact hs.resolve_left hl
    exact count_eq_one_of_mem (List.Nodup.of_append_right hu) hm
  · intro hp
    rw [← ht] at hl
    exact hl (hn hp)

/-- Every run of writes, creations of files and subtransactions. -/
theorem run_filesAgree (events : List (FileEvent T F)) (h : Ledger.new.Admits events) :
    FilesAgree (Transaction.run events) (Ledger.run events) :=
  (Agrees.new.run events h).files

/-- One file of the transaction and two of a subtransaction, which a batch names. -/
def abortedWrite : List (FileEvent namedFiles Unit) :=
  [.act (.inr (.createdLocalFile "a")), .start, .act (.inr (.createdLocalFile "b")),
    .act (.inl (.stage (.batch ⟨1, (false, ["a", "b"]), none⟩))), .abort,
    .act (.inl (.stage (.batch ⟨2, (false, ["a"]), none⟩)))]

theorem abortedWrite_filesAgree :
    Ledger.new.Admits abortedWrite ∧
      namedPaths (run abortedWrite).table.transaction.actions = ["a"] ∧
      (run abortedWrite).cleanedPaths = ["b"] ∧
      FilesAgree (run abortedWrite) (Ledger.run abortedWrite) := by
  have ha : Ledger.new.Admits abortedWrite := by
    simp [abortedWrite, Ledger.Admits, Ledger.Allows, Ledger.new, Ledger.step, Ledger.surviving,
      path, operationPaths, namedFiles, Reference.step, tableAndStorage,
      Component.prod, storageRegistry]
  exact ⟨ha, rfl, rfl, run_filesAgree abortedWrite ha⟩

end LagoDB.StorageResources
