import LagoDB.Savepoint
import LagoDB.ActionLog

/-!
# Savepoints of a managed table

`TableTransactionState` pairs the action log with a stack of marks, one per
write below the top level. `ManagedTableState` adds storage generations: a
rebuild replaces the whole transaction and keeps the old one in a frame. Both
are undone on subtransaction abort and renumbered on release.

Stacks are lists whose head is the top, so `Vec::last` is `List.head?` here.
The row registry has a savepoint history of its own and is left out.
-/
namespace LagoDB.TableState

open ActionLog Savepoint List TxTableActionLog

variable {T : Provider} {F : Type}

/-! ## The transaction of one generation -/

structure HistoryFrame where
  nestLevel : ℕ
  marker : TxTableActionLogMarker

structure TableTransactionState (T : Provider) where
  actions : TxTableActionLog T
  levelHistory : List HistoryFrame

namespace TableTransactionState

def new : TableTransactionState T := ⟨empty, []⟩

def recordHistory (s : TableTransactionState T) (nestLevel : ℕ) : TableTransactionState T :=
  if 1 < nestLevel then
    { s with levelHistory := ⟨nestLevel, s.actions.mark⟩ :: s.levelHistory }
  else s

/-- The mutation runs after the mark was taken. On failure the log is cut back
to the mark and the frame is popped again. -/
def runMutation (s : TableTransactionState T) (nestLevel : ℕ)
    (mutation : TxTableActionLog T → TxTableActionLog T × Except IcebergError Unit) :
    TableTransactionState T × Except IcebergError Unit :=
  let marked := s.recordHistory nestLevel
  match mutation marked.actions with
  | (actions, .ok ()) => ({ marked with actions := actions }, .ok ())
  | (actions, .error error) =>
    (⟨actions.truncate s.actions.mark,
      if 1 < nestLevel then marked.levelHistory.tail else marked.levelHistory⟩, .error error)

def recordActionMutation (s : TableTransactionState T) (nestLevel : ℕ)
    (mutation : TxTableActionLog T → TxTableActionLog T × Except IcebergError Unit) :
    TableTransactionState T × Except IcebergError Unit :=
  match s.actions.exclusiveConflictError with
  | some error => (s, .error error)
  | none => s.runMutation nestLevel mutation

def recordBatch (s : TableTransactionState T) (nestLevel : ℕ) (batch : TxWriteBatch T) :
    TableTransactionState T × Except IcebergError Unit :=
  if batch.isEmpty then (s, .ok ())
  else s.recordActionMutation nestLevel fun actions => (actions.recordBatch batch, .ok ())

def recordSchemaUpdate (s : TableTransactionState T) (nestLevel : ℕ) (update : T.SchemaUpdate) :
    TableTransactionState T × Except IcebergError Unit :=
  if T.schemaIsEmpty update then (s, .ok ())
  else
    match s.actions.exclusiveConflictError with
    | some error => (s, .error error)
    | none =>
      let marked := s.recordHistory nestLevel
      ({ marked with actions := marked.actions.stageSchema update }, .ok ())

def recordTablePropertyUpdate (s : TableTransactionState T) (nestLevel : ℕ)
    (update : T.PropertyUpdate) : TableTransactionState T × Except IcebergError Unit :=
  s.recordActionMutation nestLevel fun actions => (actions.stageProperties update, .ok ())

/-- The log itself decides whether the action may be staged, so there is no
conflict check before the mark. -/
def recordExclusiveAction (s : TableTransactionState T) (nestLevel : ℕ) (action : T.Exclusive) :
    TableTransactionState T × Except IcebergError Unit :=
  s.runMutation nestLevel fun actions => actions.stageExclusive action

/-- `commandId` is what `GetCurrentCommandId(true)` returned. -/
def recordTruncate (s : TableTransactionState T) (nestLevel : ℕ) (guard : T.Guard)
    (commandId : CommandId) : TableTransactionState T × Except IcebergError Unit :=
  s.recordActionMutation nestLevel fun actions =>
    (actions.stageTruncate guard commandId, .ok ())

def recordDrop (s : TableTransactionState T) (nestLevel : ℕ) :
    TableTransactionState T × Except IcebergError Unit :=
  s.recordActionMutation nestLevel fun actions => (actions.stageDrop, .ok ())

/-- The loop of `rollback_to_level`: pop while the top frame is at or above the
target, truncating the log to each popped mark. -/
def rollbackFrames (target : ℕ) :
    List HistoryFrame → TxTableActionLog T → TableTransactionState T
  | [], actions => ⟨actions, []⟩
  | frame :: rest, actions =>
    if frame.nestLevel < target then ⟨actions, frame :: rest⟩
    else rollbackFrames target rest (actions.truncate frame.marker)

def rollbackToLevel (s : TableTransactionState T) (target : ℕ) : TableTransactionState T :=
  rollbackFrames target s.levelHistory s.actions

def promoteFrame (released : ℕ) (frame : HistoryFrame) : HistoryFrame :=
  { frame with nestLevel := promoteLevel released frame.nestLevel }

def promoteToLevel (s : TableTransactionState T) (released : ℕ) : TableTransactionState T :=
  { s with
    levelHistory :=
      (s.levelHistory.map (promoteFrame released)).filter (fun f => decide (1 < f.nestLevel)) }

end TableTransactionState

inductive Mutation (T : Provider) where
  | batch (batch : TxWriteBatch T)
  | schema (update : T.SchemaUpdate)
  | properties (update : T.PropertyUpdate)
  | truncate (guard : T.Guard) (commandId : CommandId)
  | drop
  | exclusive (action : T.Exclusive)

def Mutation.record (nestLevel : ℕ) (s : TableTransactionState T) :
    Mutation T → TableTransactionState T × Except IcebergError Unit
  | .batch write => s.recordBatch nestLevel write
  | .schema update => s.recordSchemaUpdate nestLevel update
  | .properties update => s.recordTablePropertyUpdate nestLevel update
  | .truncate guard commandId => s.recordTruncate nestLevel guard commandId
  | .drop => s.recordDrop nestLevel
  | .exclusive action => s.recordExclusiveAction nestLevel action

/-! ## Storage generations -/

structure RebuildFrame (T : Provider) (F : Type) where
  nestLevel : ℕ
  transaction : TableTransactionState T
  fileIo : Option F
  previousRebuildLevel : Option ℕ

structure ManagedTableState (T : Provider) (F : Type) where
  transaction : TableTransactionState T
  fileIo : Option F
  rebuildLevel : Option ℕ
  rebuildHistory : List (RebuildFrame T F)

open ManagedTableState

namespace ManagedTableState

def new : ManagedTableState T F := ⟨TableTransactionState.new, none, none, []⟩

def wasRebuilt (s : ManagedTableState T F) : Bool := s.rebuildLevel.isSome

/-- One baseline per savepoint: a later rebuild at the same level keeps the
frame of the first one. -/
def recordRebuild (s : ManagedTableState T F) (nestLevel : ℕ) (fileIo : F) :
    ManagedTableState T F where
  transaction := TableTransactionState.new
  fileIo := some fileIo
  rebuildLevel := some nestLevel
  rebuildHistory :=
    if 1 < nestLevel ∧ (s.rebuildHistory.head?.map (·.nestLevel)) ≠ some nestLevel then
      ⟨nestLevel, s.transaction, s.fileIo, s.rebuildLevel⟩ :: s.rebuildHistory
    else s.rebuildHistory

def rollbackRebuilds (target : ℕ) :
    List (RebuildFrame T F) → ManagedTableState T F → ManagedTableState T F
  | [], s => { s with rebuildHistory := [] }
  | frame :: rest, s =>
    if target ≤ frame.nestLevel then
      rollbackRebuilds target rest
        ⟨frame.transaction.rollbackToLevel target, frame.fileIo, frame.previousRebuildLevel, rest⟩
    else { s with rebuildHistory := frame :: rest }

def rollbackToLevel (s : ManagedTableState T F) (target : ℕ) : ManagedTableState T F :=
  rollbackRebuilds target s.rebuildHistory
    { s with transaction := s.transaction.rollbackToLevel target }

def promoteFrame (released : ℕ) (frame : RebuildFrame T F) : RebuildFrame T F where
  nestLevel := promoteLevel released frame.nestLevel
  transaction := frame.transaction.promoteToLevel released
  fileIo := frame.fileIo
  previousRebuildLevel := frame.previousRebuildLevel.map (promoteLevel released)

/-- `dedup_by_key` keeps the first of a run in `Vec` order. That is the oldest
frame, the last one of the run here. -/
def dedupFrames : List (RebuildFrame T F) → List (RebuildFrame T F)
  | [] => []
  | [frame] => [frame]
  | newer :: older :: rest =>
    if newer.nestLevel = older.nestLevel then dedupFrames (older :: rest)
    else newer :: dedupFrames (older :: rest)

def promoteToLevel (s : ManagedTableState T F) (released : ℕ) : ManagedTableState T F where
  transaction := s.transaction.promoteToLevel released
  fileIo := s.fileIo
  rebuildLevel := s.rebuildLevel.map (promoteLevel released)
  rebuildHistory :=
    dedupFrames ((s.rebuildHistory.map (promoteFrame released)).filter
      (fun f => decide (1 < f.nestLevel)))

end ManagedTableState

/-- What a statement does to the table between two subtransaction events. -/
inductive Operation (T : Provider) (F : Type) where
  | stage (mutation : Mutation T)
  | rebuild (fileIo : F)

def Operation.act (nestLevel : ℕ) (s : ManagedTableState T F) :
    Operation T F → ManagedTableState T F
  | .stage mutation => { s with transaction := (mutation.record nestLevel s.transaction).1 }
  | .rebuild fileIo => s.recordRebuild nestLevel fileIo

/-! ## The reference effect of a mutation -/

/-- An exclusive action already in the log rejects every later mutation. -/
def unlessExclusive (log next : TxTableActionLog T) : TxTableActionLog T :=
  match log.exclusiveConflictError with
  | some _ => log
  | none => next

/-- What a mutation does to a log that keeps no history. -/
def Mutation.stage (log : TxTableActionLog T) : Mutation T → TxTableActionLog T
  | .batch write => if write.isEmpty then log else unlessExclusive log (log.recordBatch write)
  | .schema update =>
    if T.schemaIsEmpty update then log else unlessExclusive log (log.stageSchema update)
  | .properties update => unlessExclusive log (log.stageProperties update)
  | .truncate guard commandId => unlessExclusive log (log.stageTruncate guard commandId)
  | .drop => unlessExclusive log log.stageDrop
  | .exclusive action => (log.stageExclusive action).1

variable (log : TxTableActionLog T)

lemma exclusiveConflictError_strip :
    log.strip.exclusiveConflictError = log.exclusiveConflictError := by
  simp only [exclusiveConflictError, log_strip_actions, List.findSome?_map]
  congr 1
  funext action
  cases action <;> rfl

lemma unlessExclusive_strip {log next n' : TxTableActionLog T} (h : n'.strip = next.strip) :
    (unlessExclusive log.strip n').strip = (unlessExclusive log next).strip := by
  unfold unlessExclusive
  rw [exclusiveConflictError_strip]
  cases log.exclusiveConflictError with
  | some e => exact log_strip_strip log
  | none => exact h

open Mutation

lemma stage_strip (m : Mutation T) : (m.stage log.strip).strip = (m.stage log).strip := by
  cases m with
  | batch w =>
    simp only [stage, recordBatch]
    split_ifs with he
    · exact log_strip_strip log
    · exact unlessExclusive_strip (pushBatch_strip log w)
  | schema u =>
    simp only [stage, stageSchema]
    split_ifs with he
    · exact log_strip_strip log
    · exact unlessExclusive_strip (strip_append log _ _ [.schema u] rfl rfl)
  | properties u => exact unlessExclusive_strip (strip_append log _ _ [.properties u] rfl rfl)
  | truncate g c => exact unlessExclusive_strip (strip_append log _ _ [.truncate ⟨g, c⟩] rfl rfl)
  | drop => exact unlessExclusive_strip (strip_append log _ _ [.drop] rfl rfl)
  | exclusive a =>
    simp only [stage, stageExclusive, log_strip_actions, isEmpty_map]
    split_ifs with he
    · exact strip_append log _ _ [.exclusive a] rfl rfl
    · exact log_strip_strip log

lemma unlessExclusive_truncate_mark {log next : TxTableActionLog T}
    (h : (next.truncate log.mark).strip = log.strip) :
    ((unlessExclusive log next).truncate log.mark).strip = log.strip := by
  unfold unlessExclusive
  cases log.exclusiveConflictError with
  | some e => exact truncate_mark_append log log [] (by simp)
  | none => exact h

lemma stage_truncate_mark (m : Mutation T) :
    ((m.stage log).truncate log.mark).strip = log.strip := by
  have hs : (log.truncate log.mark).strip = log.strip := truncate_mark_append log log [] (by simp)
  cases m with
  | batch w =>
    simp only [stage, recordBatch]
    split_ifs with he
    · exact hs
    · exact unlessExclusive_truncate_mark (truncate_mark_pushBatch log w)
  | schema u =>
    simp only [stage, stageSchema]
    split_ifs with he
    · exact hs
    · exact unlessExclusive_truncate_mark (truncate_mark_append log _ [.schema u] rfl)
  | properties u =>
    exact unlessExclusive_truncate_mark (truncate_mark_append log _ [.properties u] rfl)
  | truncate g c =>
    exact unlessExclusive_truncate_mark (truncate_mark_append log _ [.truncate ⟨g, c⟩] rfl)
  | drop => exact unlessExclusive_truncate_mark (truncate_mark_append log _ [.drop] rfl)
  | exclusive a =>
    simp only [stage, stageExclusive]
    split_ifs with he
    · exact truncate_mark_append log _ [.exclusive a] rfl
    · exact hs

/-! ## Laws of the transaction -/

attribute [local simp] Mutation.stage

namespace TableTransactionState

@[simp] lemma recordHistory_actions (s : TableTransactionState T) (v : ℕ) :
    (s.recordHistory v).actions = s.actions := by
  unfold recordHistory
  split_ifs <;> rfl

/-- A call either stages the mutation behind a fresh mark or changes nothing
that is visible. -/
def Recorded (nestLevel : ℕ) (s : TableTransactionState T) (mutation : Mutation T)
    (s' : TableTransactionState T) : Prop :=
  s' = { s.recordHistory nestLevel with actions := mutation.stage s.actions } ∨
    s'.actions.strip = s.actions.strip ∧ s'.levelHistory = s.levelHistory ∧
      mutation.stage s.actions = s.actions

variable {s : TableTransactionState T} {m : Mutation T}

lemma recorded_self {v : ℕ} (h : m.stage s.actions = s.actions) : Recorded v s m s :=
  .inr ⟨rfl, rfl, h⟩

lemma recorded_actionMutation {v : ℕ} (f : TxTableActionLog T → TxTableActionLog T)
    (h : m.stage s.actions = unlessExclusive s.actions (f s.actions)) :
    Recorded v s m (s.recordActionMutation v fun cs => (f cs, .ok ())).1 := by
  unfold unlessExclusive at h
  unfold recordActionMutation
  cases hc : s.actions.exclusiveConflictError with
  | some e =>
    rw [hc] at h
    exact recorded_self h
  | none =>
    rw [hc] at h
    left
    simp only [runMutation, recordHistory_actions, h]

section

variable (v : ℕ) (s : TableTransactionState T)

lemma recorded_exclusive (act : T.Exclusive) :
    Recorded v s (.exclusive act) (s.recordExclusiveAction v act).1 := by
  by_cases he : s.actions.actions.isEmpty
  · left
    simp only [recordExclusiveAction, runMutation, recordHistory_actions, stage,
      stageExclusive, if_pos he]
  · right
    simp only [recordExclusiveAction, runMutation, recordHistory_actions, stage,
      stageExclusive, if_neg he]
    refine ⟨truncate_mark_append s.actions s.actions [] (by simp), ?_, trivial⟩
    -- the frame pushed before the attempt is the one popped after it
    by_cases hl : 1 < v
    · simp [recordHistory, hl]
    · simp [recordHistory, hl]

lemma record_cases (m : Mutation T) : Recorded v s m (m.record v s).1 := by
  cases m with
  | batch w =>
    simp only [record, recordBatch]
    split_ifs with he
    · exact recorded_self (by simp [he])
    · exact recorded_actionMutation (·.recordBatch w) (by simp [he])
  | schema u =>
    simp only [record, recordSchemaUpdate]
    split_ifs with he
    · exact recorded_self (by simp [he])
    · cases hc : s.actions.exclusiveConflictError with
      | some e => exact recorded_self (by simp [he, unlessExclusive, hc])
      | none =>
        left
        simp [he, unlessExclusive, hc]
  | properties u => exact recorded_actionMutation (·.stageProperties u) rfl
  | truncate g c => exact recorded_actionMutation (·.stageTruncate g c) rfl
  | drop => exact recorded_actionMutation (·.stageDrop) rfl
  | exclusive a => exact recorded_exclusive v s a

lemma record_view (m : Mutation T) :
    (m.record v s).1.actions.strip = (m.stage s.actions.strip).strip := by
  rw [stage_strip]
  rcases record_cases v s m with h | ⟨hv, -, hs⟩
  · rw [h]
  · rw [hv, hs]

end

/-- Every frame of the history lies in `2..level`, newest on top. -/
def Bounded (level : ℕ) (s : TableTransactionState T) : Prop :=
  Leveled HistoryFrame.nestLevel level s.levelHistory

lemma Bounded.mono {low high : ℕ} (h : Bounded low s) (hle : low ≤ high) : Bounded high s :=
  Leveled.mono h hle

lemma bounded_new (l : ℕ) : Bounded l (new : TableTransactionState T) := Leveled.nil

variable {l : ℕ}

lemma Bounded.record (h : Bounded l s) (m : Mutation T) : Bounded l (m.record l s).1 := by
  rcases record_cases l s m with hs | ⟨-, hh, -⟩
  · rw [hs]
    by_cases hl : 1 < l
    · have hp : Leveled HistoryFrame.nestLevel l
          (⟨l, s.actions.mark⟩ :: s.levelHistory) := Leveled.push h hl rfl
      simpa [Bounded, recordHistory, hl] using hp
    · simpa [Bounded, recordHistory, hl] using h
  · unfold Bounded
    rw [hh]
    exact h

lemma rollbackFrames_congr (t : ℕ) (fs : List HistoryFrame)
    {a b : TxTableActionLog T} (h : a.strip = b.strip) :
    (rollbackFrames t fs a).actions.strip = (rollbackFrames t fs b).actions.strip := by
  induction fs generalizing a b with
  | nil => exact h
  | cons f r ih =>
    simp only [rollbackFrames]
    split_ifs with hl
    · exact h
    · exact ih (truncate_congr h f.marker)

lemma rollbackFrames_history (t : ℕ) (fs : List HistoryFrame) (log : TxTableActionLog T) :
    (rollbackFrames t fs log).levelHistory = fs.dropWhile (fun f => decide (t ≤ f.nestLevel)) := by
  induction fs generalizing log with
  | nil => rfl
  | cons r rest ih =>
    simp only [rollbackFrames, dropWhile_cons]
    by_cases hl : r.nestLevel < t
    · simp [hl]
    · simp only [hl, if_false, decide_eq_true (not_lt.mp hl), if_true]
      exact ih _

variable {t : ℕ}

lemma rollback_record (s : TableTransactionState T) (m : Mutation T) (hl : 2 ≤ t) (hhi : t ≤ l) :
    ((m.record l s).1.rollbackToLevel t).actions.strip = (s.rollbackToLevel t).actions.strip := by
  rcases record_cases l s m with hs | ⟨hv, hh, -⟩
  · rw [hs]
    simp only [rollbackToLevel, recordHistory, if_pos (show 1 < l by omega), rollbackFrames,
      if_neg (not_lt.mpr hhi)]
    exact rollbackFrames_congr t s.levelHistory (stage_truncate_mark s.actions m)
  · unfold rollbackToLevel
    rw [hh]
    exact rollbackFrames_congr t s.levelHistory hv

lemma rollback_above (h : Bounded l s) (ht : l < t) : s.rollbackToLevel t = s := by
  obtain ⟨a, history⟩ := s
  cases history with
  | nil => rfl
  | cons f r =>
    have hf := (h.bounds f mem_cons_self).2
    simp only [rollbackToLevel, rollbackFrames, if_pos (show f.nestLevel < t by omega)]

lemma Bounded.rollback (h : Bounded (l + 1) s) : Bounded l (s.rollbackToLevel (l + 1)) := by
  unfold Bounded rollbackToLevel
  rw [rollbackFrames_history]
  exact Leveled.dropWhile h

lemma rollback_rollback (s : TableTransactionState T) (h : t ≤ l) :
    (s.rollbackToLevel l).rollbackToLevel t = s.rollbackToLevel t := by
  obtain ⟨a, history⟩ := s
  simp only [rollbackToLevel]
  induction history generalizing a with
  | nil => rfl
  | cons f r ih =>
    by_cases hl : f.nestLevel < l
    · simp only [rollbackFrames, if_pos hl]
    · simp only [rollbackFrames, if_neg hl, if_neg (show ¬ f.nestLevel < t by omega)]
      exact ih _

lemma Bounded.promote (h : Bounded (l + 1) s) : Bounded l (s.promoteToLevel (l + 1)) :=
  Leveled.promote h fun _ => rfl

variable {rs : ℕ}

lemma Bounded.promote_above (h : Bounded l s) (hr : l < rs) : Bounded l (s.promoteToLevel rs) := by
  have hm : s.levelHistory.map (promoteFrame rs) = s.levelHistory := by
    refine (map_congr_left fun f hf => ?_).trans (map_id s.levelHistory)
    have hb := (h.bounds f hf).2
    simp [promoteFrame, promoteLevel, show ¬ rs ≤ f.nestLevel by omega]
  unfold Bounded promoteToLevel
  rw [hm]
  exact Leveled.sublist h filter_sublist

lemma rollbackFrames_promote (ht : t < rs) (fs : List HistoryFrame) (log : TxTableActionLog T) :
    (rollbackFrames t (fs.map (promoteFrame rs)) log).actions =
      (rollbackFrames t fs log).actions := by
  induction fs generalizing log with
  | nil => rfl
  | cons f r ih =>
    have hiff : promoteLevel rs f.nestLevel < t ↔ f.nestLevel < t := by
      rw [← not_le, ← not_le, le_promoteLevel_iff ht]
    simp only [map_cons, rollbackFrames, promoteFrame, hiff]
    split_ifs with hl
    · rfl
    · exact ih _

lemma rollback_promote (h : Bounded l s) (hl : 2 ≤ t) (ht : t < rs) :
    ((s.promoteToLevel rs).rollbackToLevel t).actions = (s.rollbackToLevel t).actions := by
  unfold rollbackToLevel promoteToLevel
  rw [Leveled.filter_promote h (by omega) fun _ => rfl]
  exact rollbackFrames_promote ht s.levelHistory s.actions

end TableTransactionState

/-! ## Laws of the managed table -/

/-- The visible state: the ordered actions with their batches, and whether the
storage was rebuilt in this transaction. -/
structure TableView (T : Provider) where
  log : TxTableActionLog T
  rebuilt : Bool

def Operation.apply : Operation T F → TableView T → TableView T
  | .stage mutation, view => { view with log := (mutation.stage view.log).strip }
  | .rebuild _, _ => ⟨empty, true⟩

namespace ManagedTableState

def view (s : ManagedTableState T F) : TableView T :=
  ⟨s.transaction.actions.strip, s.wasRebuilt⟩

/-- The view a rollback ends with: that of the oldest frame it pops, or the one
it started from. -/
def restored (target : ℕ) : List (RebuildFrame T F) → TableView T → TableView T
  | [], current => current
  | frame :: rest, current =>
    if target ≤ frame.nestLevel then
      restored target rest
        ⟨(frame.transaction.rollbackToLevel target).actions.strip,
          frame.previousRebuildLevel.isSome⟩
    else current

lemma view_rollbackRebuilds (t : ℕ) (fs : List (RebuildFrame T F)) (s : ManagedTableState T F) :
    (rollbackRebuilds t fs s).view = restored t fs s.view := by
  induction fs generalizing s with
  | nil => rfl
  | cons f r ih =>
    simp only [rollbackRebuilds, restored]
    split_ifs with hp
    · exact ih _
    · rfl

lemma view_rollback (s : ManagedTableState T F) (t : ℕ) : (s.rollbackToLevel t).view =
      restored t s.rebuildHistory ⟨(s.transaction.rollbackToLevel t).actions.strip, s.wasRebuilt⟩ :=
  view_rollbackRebuilds t s.rebuildHistory _

/-- The retired transaction of a frame is bounded by the frame's own level. -/
structure Bounded (level : ℕ) (s : ManagedTableState T F) : Prop where
  transaction : s.transaction.Bounded level
  frames : Leveled RebuildFrame.nestLevel level s.rebuildHistory
  retired : ∀ f ∈ s.rebuildHistory, f.transaction.Bounded f.nestLevel

variable {s : ManagedTableState T F}

lemma Bounded.mono {low high : ℕ} (h : Bounded low s) (hle : low ≤ high) : Bounded high s :=
  ⟨h.transaction.mono hle, h.frames.mono hle, h.retired⟩

open TableTransactionState

lemma bounded_new (l : ℕ) : Bounded l (new : ManagedTableState T F) :=
  ⟨TableTransactionState.bounded_new l, Leveled.nil, by simp [new]⟩

lemma act_view (l : ℕ) (op : Operation T F) (s : ManagedTableState T F) :
    (op.act l s).view = op.apply s.view := by
  cases op with
  | stage m => simp only [Operation.act, Operation.apply, view, wasRebuilt, record_view]
  | rebuild f => rfl

variable {l : ℕ}

lemma Bounded.act (h : Bounded l s) (op : Operation T F) : Bounded l (op.act l s) := by
  cases op with
  | stage m => exact ⟨h.transaction.record m, h.frames, h.retired⟩
  | rebuild i =>
    refine ⟨TableTransactionState.bounded_new l, ?_, ?_⟩
    · simp only [Operation.act, recordRebuild]
      split_ifs with hp
      · exact h.frames.push hp.1 rfl
      · exact h.frames
    · simp only [Operation.act, recordRebuild]
      split_ifs with hp
      · intro f hf
        rcases mem_cons.mp hf with rfl | hf
        · exact h.transaction
        · exact h.retired f hf
      · exact h.retired

variable {target : ℕ}

lemma rollback_rebuild (s : ManagedTableState T F) (i : F) (hl : 2 ≤ target) (hhi : target ≤ l) :
    ((s.recordRebuild l i).rollbackToLevel target).view = (s.rollbackToLevel target).view := by
  rw [view_rollback, view_rollback]
  by_cases hp : (s.rebuildHistory.head?.map (·.nestLevel)) ≠ some l
  · -- the frame pushed by this rebuild restores exactly the state before it
    have hh : (s.recordRebuild l i).rebuildHistory =
        ⟨l, s.transaction, s.fileIo, s.rebuildLevel⟩ :: s.rebuildHistory := by
      simp [recordRebuild, hp, show 1 < l by omega]
    rw [hh]
    simp only [restored, if_pos hhi]
    rfl
  · -- an earlier rebuild at this level left its frame on top, and it is popped
    have hh : (s.recordRebuild l i).rebuildHistory = s.rebuildHistory := by
      simp [recordRebuild, not_not.mp hp]
    rw [hh]
    cases hf : s.rebuildHistory with
    | nil => simp [hf] at hp
    | cons f r =>
      have ht : f.nestLevel = l := by simpa [hf] using hp
      simp only [restored, if_pos (show target ≤ f.nestLevel by omega)]

lemma rollback_act (s : ManagedTableState T F) (op : Operation T F) (hl : 2 ≤ target)
    (hh : target ≤ l) :
    ((op.act l s).rollbackToLevel target).view = (s.rollbackToLevel target).view := by
  cases op with
  | stage m =>
    rw [view_rollback, view_rollback]
    simp only [Operation.act, wasRebuilt, rollback_record s.transaction m hl hh]
  | rebuild f => exact rollback_rebuild s f hl hh

lemma rollback_above (h : Bounded l s) (ht : l < target) :
    (s.rollbackToLevel target).view = s.view := by
  rw [view_rollback, TableTransactionState.rollback_above h.transaction ht]
  cases hf : s.rebuildHistory with
  | nil => rfl
  | cons f r =>
    have hfr := (h.frames.bounds f (by simp [hf])).2
    simp only [restored, if_neg (show ¬ target ≤ f.nestLevel by omega)]
    rfl

variable (fs : List (RebuildFrame T F))

lemma Bounded.rollbackRebuilds (s : ManagedTableState T F)
    (hs : s.transaction.Bounded l) (hfr : Leveled RebuildFrame.nestLevel (l + 1) fs)
    (hr : ∀ f ∈ fs, f.transaction.Bounded f.nestLevel) :
    Bounded l (rollbackRebuilds (l + 1) fs s) := by
  induction fs generalizing s with
  | nil => exact ⟨hs, Leveled.nil, by simp [ManagedTableState.rollbackRebuilds]⟩
  | cons r rest ih =>
    simp only [ManagedTableState.rollbackRebuilds]
    split_ifs with hp
    · refine ih _ ?_ hfr.tail fun f hf => hr f (mem_cons_of_mem r hf)
      have hb := (hfr.bounds r mem_cons_self).2
      exact ((hr r mem_cons_self).mono hb).rollback
    · refine ⟨hs, ?_, hr⟩
      have hk := hfr.dropWhile
      rwa [dropWhile_cons, if_neg (by simpa using hp)] at hk

lemma Bounded.rollback (h : Bounded (l + 1) s) : Bounded l (s.rollbackToLevel (l + 1)) :=
  Bounded.rollbackRebuilds s.rebuildHistory _ h.transaction.rollback h.frames h.retired

lemma rollback_rollbackRebuilds (hle : target ≤ l) (fs : List (RebuildFrame T F))
    (s : ManagedTableState T F) :
    ((rollbackRebuilds l fs s).rollbackToLevel target).view =
      restored target fs ⟨(s.transaction.rollbackToLevel target).actions.strip, s.wasRebuilt⟩ := by
  induction fs generalizing s with
  | nil => exact view_rollback _ target
  | cons f r ih =>
    by_cases hp : l ≤ f.nestLevel
    · simp only [rollbackRebuilds, if_pos hp, restored, if_pos (show target ≤ f.nestLevel by omega)]
      rw [ih, rollback_rollback f.transaction hle]
      rfl
    · simp only [rollbackRebuilds, if_neg hp]
      exact view_rollback _ target

/-- An outer abort after an inner one shows what the outer abort alone shows. -/
lemma rollback_rollback (s : ManagedTableState T F) (hle : target ≤ l) :
    ((s.rollbackToLevel l).rollbackToLevel target).view = (s.rollbackToLevel target).view := by
  rw [view_rollback s target]
  unfold rollbackToLevel
  rw [← rollbackToLevel, rollback_rollbackRebuilds hle]
  simp only [TableTransactionState.rollback_rollback s.transaction hle]
  rfl

lemma promote_view (s : ManagedTableState T F) (rs : ℕ) : (s.promoteToLevel rs).view = s.view := by
  simp [view, wasRebuilt, promoteToLevel, TableTransactionState.promoteToLevel]

lemma dedupFrames_sublist : (dedupFrames fs).Sublist fs := by
  induction fs using dedupFrames.induct with
  | case1 | case2 => exact List.Sublist.refl _
  | case3 n o r heq ih =>
    rw [dedupFrames, if_pos heq]
    exact ih.cons n
  | case4 n o r hne ih =>
    rw [dedupFrames, if_neg hne]
    exact ih.cons_cons n

lemma retired_promote (h : Bounded (l + 1) s) {f : RebuildFrame T F} (hf : f ∈ s.rebuildHistory) :
    (promoteFrame (l + 1) f).transaction.Bounded (promoteFrame (l + 1) f).nestLevel := by
  have hb := (h.frames.bounds f hf).2
  have hr := h.retired f hf
  simp only [promoteFrame, promoteLevel]
  split_ifs with hre
  · rw [show f.nestLevel = l + 1 by omega] at hr
    exact hr.promote
  · exact hr.promote_above (by omega)

lemma Bounded.promote (h : Bounded (l + 1) s) : Bounded l (s.promoteToLevel (l + 1)) := by
  refine ⟨h.transaction.promote, ?_, fun f hf => ?_⟩
  · exact (Leveled.promote h.frames fun _ => rfl).sublist (dedupFrames_sublist _)
  · have hk := (dedupFrames_sublist _).subset hf
    obtain ⟨g, hg, rfl⟩ := mem_map.mp (mem_of_mem_filter hk)
    exact retired_promote h hg

/-- Of two frames at one level every rollback pops both or none, and the older
one decides what is restored. -/
lemma restored_dedupFrames (t : ℕ) (fs : List (RebuildFrame T F)) (c : TableView T) :
    restored t (dedupFrames fs) c = restored t fs c := by
  induction fs using dedupFrames.induct generalizing c with
  | case1 => rfl
  | case2 f => rfl
  | case3 n o r heq ih =>
    rw [dedupFrames, if_pos heq, ih]
    simp only [restored, heq]
    split_ifs <;> rfl
  | case4 n o r hne ih =>
    rw [dedupFrames, if_neg hne]
    rw [restored, restored, ih]

lemma restored_promote {rs : ℕ} (hl : 2 ≤ target) (ht : target < rs)
    (fs : List (RebuildFrame T F)) (hr : ∀ f ∈ fs, f.transaction.Bounded f.nestLevel)
    (c : TableView T) : restored target (fs.map (promoteFrame rs)) c = restored target fs c := by
  induction fs generalizing c with
  | nil => rfl
  | cons r rest ih =>
    have hta := ih fun f hf => hr f (mem_cons_of_mem r hf)
    simp only [map_cons, restored, promoteFrame, le_promoteLevel_iff ht, Option.isSome_map,
      rollback_promote (hr r mem_cons_self) hl ht]
    split_ifs with hp
    · exact hta _
    · rfl

lemma rollback_promote (h : Bounded l s) (hl : 2 ≤ target) (ht : target < l) :
    ((s.promoteToLevel l).rollbackToLevel target).view = (s.rollbackToLevel target).view := by
  rw [view_rollback, view_rollback]
  simp only [promoteToLevel, wasRebuilt, Option.isSome_map]
  rw [restored_dedupFrames, Leveled.filter_promote h.frames (by omega) fun _ => rfl,
    restored_promote hl ht _ h.retired, TableTransactionState.rollback_promote h.transaction hl ht]

end ManagedTableState

/-! ## Every run -/

/-- A managed table as a leveled component: `rollback_to_level` is its abort
callback and `promote_to_level` its release callback. -/
def managedTable (T : Provider) (F : Type) :
    Component (ManagedTableState T F) (TableView T) (Operation T F) where
  view := view
  apply := Operation.apply
  act := fun level op s => op.act level s
  undo := fun level s => s.rollbackToLevel level
  promote := fun level s => s.promoteToLevel level
  inv := ManagedTableState.Bounded
  act_view := fun level op s _ => act_view level op s
  act_inv := fun _ op _ _ h => h.act op
  undo_act := fun _ op s _ _ hlow hhigh => rollback_act s op hlow hhigh
  undo_above := fun _ _ _ h ht => rollback_above h ht
  start_inv := fun _ _ h => h.mono (Nat.le_succ _)
  undo_inv := fun _ _ h => h.rollback
  undo_undo := fun s _ _ hle => rollback_rollback s hle
  promote_view := fun level s => promote_view s level
  promote_inv := fun _ _ _ h => h.promote
  undo_promote := fun _ _ _ h hlow ht => rollback_promote h hlow ht

/-- The table is first touched below `depth` open subtransactions. Whatever
happens from there, it shows what a machine with full copies shows and stands at
the same nesting level. -/
theorem managedTable_run_view (depth : ℕ) (events : List (Event (Operation T F))) :
    let table := (managedTable T F).run ⟨depth + 1, new⟩ events
    let reference := (Reference.entered ⟨empty, false⟩ depth).run
      (Operation.apply (T := T) (F := F)) events
    table.state.view = reference.current ∧ table.level = reference.copies.length + 1 := by
  have hn : Component.Matches (managedTable T F) ⟨depth + 1, new⟩
      (Reference.entered ⟨empty, false⟩ depth) :=
    Component.Matches.entered new depth
      (bounded_new (depth + 1)) fun _ => rfl
  have hr := hn.run events
  exact ⟨hr.current, hr.level⟩

end LagoDB.TableState
