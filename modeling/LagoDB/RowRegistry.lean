import LagoDB.ActionLog
import Mathlib.Data.Finset.Basic

/-!
# The row registry of a relation

Rows of data files are identified by a file id and a position. The registry interns
file paths and keeps, for every file, which modify state has taken which positions.
The positions of an owner are a shared bitmap: the modify state that takes a row of
a file for the first time is handed the bitmap and later writes it out, the registry
goes on inserting into it.
-/
namespace LagoDB.RowClaims

open ActionLog

/-! ## File ids -/

def icebergFileIdBits : ℕ := 17

def maxIcebergFiles : ℕ := 2 ^ icebergFileIdBits

/-- A stable id of a data file path within a transaction. -/
structure IcebergFileId where
  raw : ℕ
  valid : raw < maxIcebergFiles
  deriving DecidableEq

def IcebergFileId.tryFromRaw (raw : ℕ) : Except IcebergError IcebergFileId :=
  if h : raw < maxIcebergFiles then .ok ⟨raw, h⟩ else .error (.fileIdLimitExceeded maxIcebergFiles)

abbrev ModifyStateId := ℕ

/-- The handle of a shared bitmap. -/
abbrev OwnedRowPositions := ℕ

/-! ## Registry -/

structure MutationOwner where
  modifyStateId : ModifyStateId
  commandId : CommandId
  nestLevel : ℤ
  positions : OwnedRowPositions
  deriving DecidableEq

def MutationOwner.promote (fromLevel : ℤ) (owner : MutationOwner) : MutationOwner :=
  if fromLevel ≤ owner.nestLevel then { owner with nestLevel := fromLevel - 1 } else owner

structure RegisteredFile where
  path : String
  mutationOwners : List MutationOwner
  deriving DecidableEq

/-- `bitmaps` is what the handles point to. -/
structure RelationRowRegistry where
  fileIds : List (String × IcebergFileId)
  files : List RegisteredFile
  nextModifyStateId : ℕ
  bitmaps : List (Finset ℕ)
  deriving DecidableEq

inductive RowMutationClaim where
  | firstTouch (newFilePositions : Option OwnedRowPositions)
  | previouslyModified (modifyingCommandId : CommandId)
  deriving DecidableEq

/-- What a look at the owners of a file finds: a foreign owner of the position, or
the owner entry of the state itself, if there is one. -/
inductive OwnerProbe where
  | modified (commandId : CommandId)
  | unclaimed (currentOwner : Option MutationOwner)

namespace RelationRowRegistry

def new : RelationRowRegistry := ⟨[], [], 0, []⟩

variable (registry : RelationRowRegistry) (positions : OwnedRowPositions)

def rowsOf : Finset ℕ := registry.bitmaps.getD positions ∅

variable (fileId : IcebergFileId)

def ownersOf : List MutationOwner :=
  match registry.files[fileId.raw]? with
  | some file => file.mutationOwners
  | none => []

def registerFile (path : String) : Except IcebergError IcebergFileId × RelationRowRegistry :=
  match registry.fileIds.lookup path with
  | some fileId => (.ok fileId, registry)
  | none =>
    if registry.files.length < 2 ^ 32 then
      match IcebergFileId.tryFromRaw registry.files.length with
      | .error error => (.error error, registry)
      | .ok fileId =>
        (.ok fileId,
          { registry with
            fileIds := (path, fileId) :: registry.fileIds
            files := registry.files ++ [⟨path, []⟩] })
    else (.error (.metadataTracker "Iceberg file ID cannot be represented as u32"), registry)

def unknownFile : IcebergError :=
  .metadataTracker ("unknown Iceberg file ID " ++ toString fileId.raw)

def filePath : Except IcebergError String :=
  match registry.files[fileId.raw]? with
  | some file => .ok file.path
  | none => .error (unknownFile fileId)

def beginModifyState : Except IcebergError ModifyStateId × RelationRowRegistry :=
  if registry.nextModifyStateId + 1 < 2 ^ 64 then
    (.ok registry.nextModifyStateId,
      { registry with nextModifyStateId := registry.nextModifyStateId + 1 })
  else (.error (.metadataTracker "Iceberg ModifyState ID space was exhausted"), registry)

def probeOwners (state : ModifyStateId) (position : ℕ) :
    List MutationOwner → Option MutationOwner → OwnerProbe
  | [], currentOwner => .unclaimed currentOwner
  | owner :: rest, currentOwner =>
    if owner.modifyStateId = state then probeOwners state position rest (some owner)
    else if position ∈ registry.rowsOf owner.positions then .modified owner.commandId
    else probeOwners state position rest currentOwner

def multipleCommands : IcebergError :=
  .invariantViolated "one Iceberg ModifyState observed multiple command IDs"

def insertRow (position : ℕ) : RelationRowRegistry :=
  { registry with
    bitmaps := registry.bitmaps.set positions (insert position (registry.rowsOf positions)) }

/-- A new owner of a file, with a bitmap of its own. -/
def pushOwner (file : RegisteredFile) (fileId : IcebergFileId) (state : ModifyStateId)
    (position : ℕ) (command : CommandId) (nestLevel : ℤ) : RelationRowRegistry :=
  { registry with
    files := registry.files.set fileId.raw
      { file with
        mutationOwners :=
          file.mutationOwners ++ [⟨state, command, nestLevel, registry.bitmaps.length⟩] }
    bitmaps := registry.bitmaps ++ [{position}] }

/-- `claim_inner`; the nest level is that of the running transaction. -/
def claim (state : ModifyStateId) (fileId : IcebergFileId) (position : ℕ) (command : CommandId)
    (nestLevel : ℤ) : Except IcebergError RowMutationClaim × RelationRowRegistry :=
  match registry.files[fileId.raw]? with
  | none => (.error (unknownFile fileId), registry)
  | some file =>
    match registry.probeOwners state position file.mutationOwners none with
    | .modified commandId => (.ok (.previouslyModified commandId), registry)
    | .unclaimed (some owner) =>
      if owner.commandId ≠ command then (.error multipleCommands, registry)
      else if position ∈ registry.rowsOf owner.positions then
        (.ok (.previouslyModified owner.commandId), registry)
      else (.ok (.firstTouch none), registry.insertRow owner.positions position)
    | .unclaimed none =>
      (.ok (.firstTouch (some registry.bitmaps.length)),
        registry.pushOwner file fileId state position command nestLevel)

/-- Paths and ids survive. -/
def rollbackToLevel (targetLevel : ℤ) : RelationRowRegistry :=
  { registry with
    files := registry.files.map fun file =>
      { file with
        mutationOwners := file.mutationOwners.filter fun owner => owner.nestLevel < targetLevel } }

def promoteToLevel (fromLevel : ℤ) : RelationRowRegistry :=
  { registry with
    files := registry.files.map fun file =>
      { file with
        mutationOwners := file.mutationOwners.map (MutationOwner.promote fromLevel) } }

end RelationRowRegistry

/-! ## Row deletes of one modify state -/

inductive RowDeleteClaim where
  | firstTouch
  | previouslyModified (modifyingCommandId : CommandId)
  deriving DecidableEq

/-- `position_deletes` lists the bitmaps the state was handed. -/
structure RowDeleteState where
  modifyStateId : ModifyStateId
  positionDeletes : List (IcebergFileId × OwnedRowPositions)
  deriving DecidableEq

namespace RowDeleteState

def new (registry : RelationRowRegistry) :
    Except IcebergError RowDeleteState × RelationRowRegistry :=
  match registry.beginModifyState with
  | (.ok state, registry) => (.ok ⟨state, []⟩, registry)
  | (.error error, registry) => (.error error, registry)

def claim (state : RowDeleteState) (registry : RelationRowRegistry) (fileId : IcebergFileId)
    (position : ℕ) (command : CommandId) (nestLevel : ℤ) :
    Except IcebergError RowDeleteClaim × RowDeleteState × RelationRowRegistry :=
  match registry.claim state.modifyStateId fileId position command nestLevel with
  | (.error error, registry) => (.error error, state, registry)
  | (.ok (.firstTouch (some positions)), registry) =>
    (.ok .firstTouch,
      { state with positionDeletes := state.positionDeletes ++ [(fileId, positions)] }, registry)
  | (.ok (.firstTouch none), registry) => (.ok .firstTouch, state, registry)
  | (.ok (.previouslyModified commandId), registry) =>
    (.ok (.previouslyModified commandId), state, registry)

end RowDeleteState

/-! ## Mutation sinks -/

/-- The rows handed to a data file writer. -/
structure DataFileSink (ρ : Type) where
  appended : List ρ

/-- A row that cannot be encoded is refused. -/
def DataFileSink.append {ρ : Type} (encode : ρ → Except IcebergError Unit) (sink : DataFileSink ρ)
    (row : ρ) : Except IcebergError Unit × DataFileSink ρ :=
  match encode row with
  | .error error => (.error error, sink)
  | .ok _ => (.ok (), ⟨sink.appended ++ [row]⟩)

inductive MutationSinks (ρ : Type) where
  | rows (rows : DataFileSink ρ)
  | deletes (deletes : RowDeleteState)
  | rowsAndDeletes (rows : DataFileSink ρ) (deletes : RowDeleteState)

namespace MutationSinks

variable {ρ : Type} (encode : ρ → Except IcebergError Unit)

def new : Option (DataFileSink ρ) → Option RowDeleteState → Except IcebergError (MutationSinks ρ)
  | some sink, none => .ok (.rows sink)
  | none, some own => .ok (.deletes own)
  | some sink, some own => .ok (.rowsAndDeletes sink own)
  | none, none => .error (.invariantViolated "mutation session has no row or delete sink")

def appended : MutationSinks ρ → List ρ
  | .rows sink | .rowsAndDeletes sink _ => sink.appended
  | .deletes _ => []

def rowDeletes : MutationSinks ρ → Option RowDeleteState
  | .deletes own | .rowsAndDeletes _ own => some own
  | .rows _ => none

def insert (row : ρ) : MutationSinks ρ → Except IcebergError Unit × MutationSinks ρ
  | .rows sink => ((sink.append encode row).1, .rows (sink.append encode row).2)
  | .rowsAndDeletes sink own =>
    ((sink.append encode row).1, .rowsAndDeletes (sink.append encode row).2 own)
  | .deletes own =>
    (.error (.invariantViolated "insert callback reached a mutation session without a row sink"),
      .deletes own)

/-- The new version of a row is written only by the first to touch it. -/
def update (registry : RelationRowRegistry) (fileId : IcebergFileId) (position : ℕ) (row : ρ)
    (command : CommandId) (nestLevel : ℤ) :
    MutationSinks ρ → Except IcebergError RowDeleteClaim × MutationSinks ρ × RelationRowRegistry
  | .rowsAndDeletes sink own =>
    match own.claim registry fileId position command nestLevel with
    | (.ok .firstTouch, own, registry) =>
      match sink.append encode row with
      | (.ok _, sink) => (.ok .firstTouch, .rowsAndDeletes sink own, registry)
      | (.error error, sink) => (.error error, .rowsAndDeletes sink own, registry)
    | (result, own, registry) => (result, .rowsAndDeletes sink own, registry)
  | sinks =>
    (.error (.invariantViolated "update callback reached a mutation session without both sinks"),
      sinks, registry)

def delete (registry : RelationRowRegistry) (fileId : IcebergFileId) (position : ℕ)
    (command : CommandId) (nestLevel : ℤ) :
    MutationSinks ρ → Except IcebergError RowDeleteClaim × MutationSinks ρ × RelationRowRegistry
  | .deletes own =>
    match own.claim registry fileId position command nestLevel with
    | (result, own, registry) => (result, .deletes own, registry)
  | .rowsAndDeletes sink own =>
    match own.claim registry fileId position command nestLevel with
    | (result, own, registry) => (result, .rowsAndDeletes sink own, registry)
  | .rows sink =>
    (.error (.invariantViolated
      "delete callback reached a mutation session without a delete sink"), .rows sink, registry)

end MutationSinks

end LagoDB.RowClaims
