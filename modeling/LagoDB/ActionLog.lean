import Mathlib.Data.List.Basic
import Mathlib.Tactic.Ring

/-!
# The ordered action log of one table in one transaction

`TxTableActionLog` records schema, property, data, truncate, exclusive and drop
actions in staging order. Consecutive write batches share one data epoch. Three
read caches sit beside the action list and every epoch has one of its own; a
read that fills a cache returns the updated log together with its result.

The file overlay itself belongs to iceberg-lite. Its operations enter through
`Provider`, and the laws a result relies on are stated where it needs them.
-/
namespace LagoDB.ActionLog

open List

/-- Command ids are 32-bit counters of one transaction; only their order matters. -/
abbrev CommandId := ℕ

inductive MetadataCatalogError where
  | operation (source : String)
  | notFound (relid : ℕ)
  | conflict
  deriving DecidableEq

inductive IcebergError where
  | metadataCatalog (error : MetadataCatalogError)
  | metadataCommitConflict (relid : ℕ) (maxRetries : ℕ)
  | truncateCommitConflict (relid : ℕ)
  | metadataLocationNull
  | vacuum (source : String)
  | invariantViolated (message : String)
  | icebergLiteError (source : String)
  | fileIdLimitExceeded (maxFiles : ℕ)
  | metadataTracker (message : String)
  deriving DecidableEq

/-- What the shared write path takes from iceberg-lite (`SnapshotDelta`,
`PreparedSchemaUpdate`, `RowDeltaValidation`) and from its catalog adapter (the
exclusive action and the truncate guard). -/
structure Provider where
  Delta : Type
  Validation : Type
  SchemaUpdate : Type
  PropertyUpdate : Type
  Exclusive : Type
  Guard : Type
  newDelta : Delta
  appendDelta : Delta → Delta → Except IcebergError Delta
  truncateTable : Delta → Except IcebergError Delta
  deltaIsEmpty : Delta → Bool
  createdFilePaths : Delta → List String
  canceledCreatedFilePaths : Delta → List String
  schemaIsEmpty : SchemaUpdate → Bool
  conflictError : Exclusive → IcebergError
  notExclusiveInvariant : String
  misplacedInvariant : String

variable {T : Provider}

/-! ## Data epochs -/

structure TxWriteBatch (T : Provider) where
  writeCommandId : CommandId
  delta : T.Delta
  validation : Option T.Validation

def TxWriteBatch.isEmpty (batch : TxWriteBatch T) : Bool :=
  T.deltaIsEmpty batch.delta && batch.validation.isNone

/-- `Option::is_none_or(|cid| command_id < cid)`: without a reader everything is
visible. -/
def isVisible (readCommandId : Option CommandId) (commandId : CommandId) : Bool :=
  match readCommandId with
  | none => true
  | some cid => decide (commandId < cid)

structure TxDataEpoch (T : Provider) where
  batches : List (TxWriteBatch T)
  combined : Option T.Delta

namespace TxDataEpoch

def empty : TxDataEpoch T := ⟨[], none⟩

variable (epoch : TxDataEpoch T)

def push (batch : TxWriteBatch T) : TxDataEpoch T :=
  ⟨epoch.batches ++ [batch], none⟩

def mark : ℕ := epoch.batches.length

def truncate (len : ℕ) : TxDataEpoch T :=
  ⟨epoch.batches.take len, none⟩

def isEmpty (epoch : TxDataEpoch T) : Bool := epoch.batches.isEmpty

def validations : List T.Validation :=
  epoch.batches.filterMap (·.validation)

def maxWriteCommandId : Option CommandId :=
  (epoch.batches.map (·.writeCommandId)).max?

def appendVisible (delta : T.Delta)
    (readCommandId : Option CommandId) : Except IcebergError T.Delta :=
  epoch.batches.foldlM (fun delta batch =>
    if isVisible readCommandId batch.writeCommandId then T.appendDelta delta batch.delta
    else pure delta) delta

/-- The uncached body of `delta`: a single batch is shared, not copied. -/
def buildDelta : Except IcebergError T.Delta :=
  match epoch.batches with
  | [batch] => pure batch.delta
  | _ => epoch.appendVisible T.newDelta none

/-- Fills the epoch cache on success. -/
def delta (epoch : TxDataEpoch T) : Except IcebergError T.Delta × TxDataEpoch T :=
  match epoch.combined with
  | some delta => (.ok delta, epoch)
  | none =>
    match epoch.buildDelta with
    | .ok delta => (.ok delta, { epoch with combined := some delta })
    | .error error => (.error error, epoch)

def strip : TxDataEpoch T := ⟨epoch.batches, none⟩

end TxDataEpoch

/-! ## The log -/

structure TxTruncateAction (T : Provider) where
  guard : T.Guard
  commandId : CommandId

inductive TxTableAction (T : Provider) where
  | schema (update : T.SchemaUpdate)
  | properties (update : T.PropertyUpdate)
  | data (epoch : TxDataEpoch T)
  | truncate (action : TxTruncateAction T)
  | exclusive (action : T.Exclusive)
  | drop

def TxTableAction.strip : TxTableAction T → TxTableAction T
  | .data epoch => .data epoch.strip
  | action => action

structure VisibleDelta (T : Provider) where
  readCommandId : CommandId
  delta : Option T.Delta

structure TxTableActionLog (T : Provider) where
  actions : List (TxTableAction T)
  combinedDeltaCache : Option (Option T.Delta)
  visibleDeltaCache : Option (VisibleDelta T)
  maxWriteCommandIdCache : Option (Option CommandId)

structure TxTableActionLogMarker where
  actionLen : ℕ
  currentDataEpoch : Option ℕ

def lastEpoch (actions : List (TxTableAction T)) : Option (TxDataEpoch T) :=
  match actions.getLast? with
  | some (.data epoch) => some epoch
  | _ => none

/-- `actions.last_mut()` restricted to a data epoch. -/
def mapLastEpoch (f : TxDataEpoch T → TxDataEpoch T) (actions : List (TxTableAction T)) :
    List (TxTableAction T) :=
  match lastEpoch actions with
  | some epoch => actions.dropLast ++ [.data (f epoch)]
  | none => actions

namespace TxTableActionLog

def empty : TxTableActionLog T := ⟨[], none, none, none⟩

def exclusiveConflictError (log : TxTableActionLog T) : Option IcebergError :=
  log.actions.findSome? fun action =>
    match action with
    | .exclusive exclusive => some (T.conflictError exclusive)
    | _ => none

def invalidateReadCaches (log : TxTableActionLog T) : TxTableActionLog T :=
  ⟨log.actions, none, none, none⟩

def mark (log : TxTableActionLog T) : TxTableActionLogMarker :=
  ⟨log.actions.length, (lastEpoch log.actions).map TxDataEpoch.mark⟩

def truncate (log : TxTableActionLog T) (marker : TxTableActionLogMarker) :
    TxTableActionLog T :=
  let actions := log.actions.take marker.actionLen
  { log.invalidateReadCaches with
    actions :=
      match marker.currentDataEpoch with
      | some len => mapLastEpoch (·.truncate len) actions
      | none => actions }

def isEmpty (log : TxTableActionLog T) : Bool :=
  log.actions.all fun action =>
    match action with
    | .schema update => T.schemaIsEmpty update
    | .data epoch => epoch.isEmpty
    | _ => false

/-- Schema actions do not touch the file overlay, so the caches stay. -/
def stageSchema (log : TxTableActionLog T) (update : T.SchemaUpdate) : TxTableActionLog T :=
  if T.schemaIsEmpty update then log
  else { log with actions := log.actions ++ [.schema update] }

def stageProperties (log : TxTableActionLog T) (update : T.PropertyUpdate) :
    TxTableActionLog T :=
  { log with actions := log.actions ++ [.properties update] }

def stageExclusive (log : TxTableActionLog T) (action : T.Exclusive) :
    TxTableActionLog T × Except IcebergError Unit :=
  if log.actions.isEmpty then
    ({ log.invalidateReadCaches with actions := log.actions ++ [.exclusive action] }, .ok ())
  else (log, .error (T.conflictError action))

/-- `current_data_epoch_mut().push(batch)`: the open epoch is the last action,
or a new one is appended. -/
def pushBatch (log : TxTableActionLog T) (batch : TxWriteBatch T) : TxTableActionLog T :=
  { log.invalidateReadCaches with
    actions :=
      match lastEpoch log.actions with
      | some _ => mapLastEpoch (·.push batch) log.actions
      | none => log.actions ++ [.data (TxDataEpoch.empty.push batch)] }

def recordBatch (log : TxTableActionLog T) (batch : TxWriteBatch T) : TxTableActionLog T :=
  if batch.isEmpty then log else log.pushBatch batch

def stageTruncate (log : TxTableActionLog T) (guard : T.Guard) (commandId : CommandId) :
    TxTableActionLog T :=
  { log.invalidateReadCaches with
    actions := log.actions ++ [.truncate ⟨guard, commandId⟩] }

def stageDrop (log : TxTableActionLog T) : TxTableActionLog T :=
  { log.invalidateReadCaches with actions := log.actions ++ [.drop] }

/-- The log without any cache: what a savepoint has to restore. -/
def strip (log : TxTableActionLog T) : TxTableActionLog T :=
  ⟨log.actions.map TxTableAction.strip, none, none, none⟩

end TxTableActionLog

/-! ## Stripping caches -/

section Strip

@[simp] lemma action_strip_strip (act : TxTableAction T) : act.strip.strip = act.strip := by
  cases act <;> rfl

variable (log : TxTableActionLog T)

open TxTableAction

@[simp] lemma log_strip_actions : log.strip.actions = log.actions.map strip := rfl

lemma strip_eq_iff (a b : TxTableActionLog T) :
    a.strip = b.strip ↔ a.actions.map strip = b.actions.map strip := by
  simp [TxTableActionLog.strip]

@[simp] lemma log_strip_strip : log.strip.strip = log.strip := by
  rw [strip_eq_iff, log_strip_actions, map_map]
  exact map_congr_left fun a _ => action_strip_strip a

variable (cs : List (TxTableAction T)) (e : TxDataEpoch T)

lemma lastEpoch_concat : lastEpoch (cs ++ [.data e]) = some e := by
  simp [lastEpoch]

lemma lastEpoch_eq_some {cs : List (TxTableAction T)} {e : TxDataEpoch T}
    (h : lastEpoch cs = some e) : ∃ i, cs = i ++ [.data e] := by
  rcases eq_nil_or_concat cs with rfl | ⟨i, a, rfl⟩
  · simp [lastEpoch] at h
  · refine ⟨i, ?_⟩
    cases a <;> simp_all [lastEpoch]

variable (f : TxDataEpoch T → TxDataEpoch T)

lemma mapLastEpoch_concat : mapLastEpoch f (cs ++ [.data e]) = cs ++ [.data (f e)] := by
  simp [mapLastEpoch, lastEpoch_concat]

lemma lastEpoch_strip : lastEpoch (cs.map strip) = (lastEpoch cs).map TxDataEpoch.strip := by
  rcases eq_nil_or_concat cs with rfl | ⟨init, a, rfl⟩
  · rfl
  · cases a <;> simp [lastEpoch, strip]

lemma mapLastEpoch_strip (hf : ∀ e, (f e.strip).strip = (f e).strip) (cs : List (TxTableAction T)) :
    (mapLastEpoch f (cs.map strip)).map strip = (mapLastEpoch f cs).map strip := by
  cases h : lastEpoch cs with
  | none =>
    have hs : lastEpoch (cs.map strip) = none := by rw [lastEpoch_strip, h]; rfl
    simp only [mapLastEpoch, h, hs, map_map]
    exact map_congr_left fun a _ => action_strip_strip a
  | some e =>
    obtain ⟨i, rfl⟩ := lastEpoch_eq_some h
    simp only [map_append, map_cons, map_nil, strip, mapLastEpoch_concat, hf, map_map]
    congr 1
    exact map_congr_left fun a _ => action_strip_strip a

lemma strip_append (log a b : TxTableActionLog T) (rest : List (TxTableAction T))
    (ha : a.actions = log.strip.actions ++ rest) (hb : b.actions = log.actions ++ rest) :
    a.strip = b.strip := by
  rw [strip_eq_iff, ha, hb, map_append, map_append]
  congr 1
  exact (strip_eq_iff _ _).mp (log_strip_strip log)

lemma pushBatch_strip (b : TxWriteBatch T) :
    (log.strip.pushBatch b).strip = (log.pushBatch b).strip := by
  have hla := lastEpoch_strip log.actions
  cases hl : lastEpoch log.actions with
  | none =>
    rw [hl, Option.map_none] at hla
    refine strip_append log _ _ [.data (TxDataEpoch.empty.push b)] ?_ ?_
    · simp only [TxTableActionLog.pushBatch, log_strip_actions, hla]
    · simp only [TxTableActionLog.pushBatch, hl]
  | some e =>
    rw [strip_eq_iff]
    simp only [TxTableActionLog.pushBatch, log_strip_actions, hla, hl]
    exact mapLastEpoch_strip _ (fun _ => rfl) log.actions

end Strip

/-! ## Marks undo what was staged after them -/

section Marks

lemma truncate_mark_append (log log' : TxTableActionLog T) (rest : List (TxTableAction T))
    (h : log'.actions = log.actions ++ rest) : (log'.truncate log.mark).strip = log.strip := by
  rw [strip_eq_iff]
  simp only [TxTableActionLog.truncate, TxTableActionLog.mark, h, take_left']
  cases hl : lastEpoch log.actions with
  | none => rfl
  | some e =>
    obtain ⟨i, hi⟩ := lastEpoch_eq_some hl
    simp only [Option.map_some, hi, mapLastEpoch_concat, map_append, map_cons, TxTableAction.strip,
      TxDataEpoch.mark, TxDataEpoch.truncate, TxDataEpoch.strip, take_length, map_nil]

variable (log : TxTableActionLog T)

lemma truncate_mark_pushBatch (b : TxWriteBatch T) :
    ((log.pushBatch b).truncate log.mark).strip = log.strip := by
  cases hl : lastEpoch log.actions with
  | none =>
    refine truncate_mark_append log _ [.data (TxDataEpoch.empty.push b)] ?_
    simp only [TxTableActionLog.pushBatch, hl]
  | some e =>
    obtain ⟨i, hi⟩ := lastEpoch_eq_some hl
    have hp : (log.pushBatch b).actions = i ++ [.data (e.push b)] := by
      simp only [TxTableActionLog.pushBatch, hl]
      rw [hi, mapLastEpoch_concat]
    rw [strip_eq_iff]
    simp only [TxTableActionLog.truncate, TxTableActionLog.mark, hp, hl, Option.map_some]
    rw [take_of_length_le (by simp [hi]), mapLastEpoch_concat, hi]
    simp [TxTableAction.strip, TxDataEpoch.mark, TxDataEpoch.truncate, TxDataEpoch.strip,
      TxDataEpoch.push]

lemma truncate_strip (m : TxTableActionLogMarker) :
    (log.strip.truncate m).strip = (log.truncate m).strip := by
  rw [strip_eq_iff]
  simp only [TxTableActionLog.truncate, log_strip_actions, ← map_take]
  cases m.currentDataEpoch with
  | none =>
    simp only [map_map]
    exact map_congr_left fun a _ => action_strip_strip a
  | some len => exact mapLastEpoch_strip _ (fun _ => rfl) _

lemma truncate_congr {a b : TxTableActionLog T} (h : a.strip = b.strip)
    (m : TxTableActionLogMarker) : (a.truncate m).strip = (b.truncate m).strip := by
  rw [← truncate_strip a, h, truncate_strip]

end Marks

end LagoDB.ActionLog
