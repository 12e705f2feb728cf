import LagoDB.ExceptLoop
import LagoDB.RowRegistry

/-!
# Deletion vectors

The row deletes of a modify state end up in one deletion vector per data file. The
deletes a data file already has are merged into its vector; a delete file that is of
no further use is reported as removed together with the vector.
-/
namespace LagoDB.DeletionVectors

open ActionLog RowClaims

/-! ## What a scan plans -/

inductive DataFileFormat where
  | avro
  | orc
  | parquet
  | puffin
  deriving DecidableEq

/-- A delete file of the table: an equality delete, a position delete file or a deletion
vector within a Puffin file. -/
structure DeleteFile where
  filePath : String
  fileSizeInBytes : ℕ
  fileFormat : DataFileFormat
  isPositionDelete : Bool
  referencedDataFilePath : Option String
  contentOffset : Option ℤ
  contentSizeInBytes : Option ℤ
  recordCount : ℕ
  keyMetadata : Option (List UInt8)
  deriving DecidableEq

structure DeleteFileIdentity where
  filePath : String
  contentOffset : Option ℤ
  contentSizeInBytes : Option ℤ
  deriving DecidableEq

def DeleteFile.identity (file : DeleteFile) : DeleteFileIdentity :=
  ⟨file.filePath, file.contentOffset, file.contentSizeInBytes⟩

def DeleteFile.isDeletionVector (file : DeleteFile) : Bool :=
  file.isPositionDelete && file.fileFormat == .puffin

structure FileScanTaskDeleteFile extends DeleteFile where
  canRemoveAfterDvRewrite : Bool
  deriving DecidableEq

/-- `S` is the type of partition values; of the partition spec only the id counts. -/
structure FileScanTask (S : Type) where
  dataFilePath : String
  partition : Option S
  partitionSpec : Option ℤ
  partitionSpecId : ℤ
  deletes : List FileScanTaskDeleteFile

structure ReferencedDataFile (S : Type) where
  filePath : String
  partition : S
  partitionSpecId : ℤ
  deriving DecidableEq

variable {S : Type}

/-! ## Tasks by data file -/

structure PlannedMutationTasks (S : Type) where
  tasks : List (FileScanTask S)
  tasksByPath : List (String × List ℕ)

namespace PlannedMutationTasks

def pushIndex (path : String) (taskIndex : ℕ) :
    List (String × List ℕ) → List (String × List ℕ)
  | [] => [(path, [taskIndex])]
  | (found, indices) :: rest =>
    if found = path then (found, indices ++ [taskIndex]) :: rest
    else (found, indices) :: pushIndex path taskIndex rest

def new (tasks : List (FileScanTask S)) : PlannedMutationTasks S where
  tasks := tasks
  tasksByPath := tasks.zipIdx.foldl
    (fun byPath task => pushIndex task.1.dataFilePath task.2 byPath) []

def missingTask (path : String) : IcebergError :=
  .metadataTracker ("cannot find Iceberg scan task metadata for deletion target " ++ path)

variable (planned : PlannedMutationTasks S)

def taskAt (taskIndex : ℕ) :
    Except IcebergError (FileScanTask S) :=
  match planned.tasks[taskIndex]? with
  | some task => .ok task
  | none => .error (.invariantViolated "mutation task path index is inconsistent")

def tasksForPath (path : String) :
    Except IcebergError (List (FileScanTask S)) :=
  match planned.tasksByPath.lookup path with
  | none => .error (missingTask path)
  | some taskIndices => taskIndices.mapM planned.taskAt

end PlannedMutationTasks

/-! ## The deletes of a data file -/

structure PlannedDataFile (S : Type) where
  target : ReferencedDataFile S
  positionDeleteFiles : List FileScanTaskDeleteFile

namespace PlannedDataFile

def pushPositionDeleteFile (deleteFile : FileScanTaskDeleteFile) (dataFile : PlannedDataFile S) :
    PlannedDataFile S :=
  if deleteFile ∈ dataFile.positionDeleteFiles then dataFile
  else { dataFile with positionDeleteFiles := dataFile.positionDeleteFiles ++ [deleteFile] }

/-- A position delete of another data file is passed over. -/
def mergeDeleteFile (dataFile : PlannedDataFile S) (deleteFile : FileScanTaskDeleteFile) :
    PlannedDataFile S :=
  if deleteFile.isPositionDelete then
    match deleteFile.referencedDataFilePath with
    | some target =>
      if target = dataFile.target.filePath then dataFile.pushPositionDeleteFile deleteFile
      else dataFile
    | none => dataFile.pushPositionDeleteFile deleteFile
  else dataFile

def mergeDeleteFiles (task : FileScanTask S) (dataFile : PlannedDataFile S) : PlannedDataFile S :=
  task.deletes.foldl mergeDeleteFile dataFile

variable [EmptyCollection S]

def targetFromTask (task : FileScanTask S) : Except IcebergError (ReferencedDataFile S) :=
  match task.partitionSpec with
  | some specId =>
    if specId ≠ task.partitionSpecId then
      .error (.invariantViolated
        "Iceberg scan task partition spec id does not match its partition spec")
    else .ok ⟨task.dataFilePath, task.partition.getD ∅, task.partitionSpecId⟩
  | none => .ok ⟨task.dataFilePath, task.partition.getD ∅, task.partitionSpecId⟩

def pathMismatch : IcebergError :=
  .invariantViolated "Iceberg scan task path does not match requested deletion target"

variable [DecidableEq S]

def mergeTask (path : String) (dataFile : PlannedDataFile S) (task : FileScanTask S) :
    Except IcebergError (PlannedDataFile S) := do
  let target ← targetFromTask task
  if target.filePath ≠ path then throw pathMismatch
  else if dataFile.target ≠ target then
    throw (.invariantViolated "Iceberg scan planned conflicting metadata for one data file")
  else return dataFile.mergeDeleteFiles task

def fromScanTasks (path : String) :
    List (FileScanTask S) → Except IcebergError (PlannedDataFile S)
  | [] => .error (PlannedMutationTasks.missingTask path)
  | first :: rest => do
    let target ← targetFromTask first
    if target.filePath ≠ path then throw pathMismatch
    else rest.foldlM (mergeTask path) (mergeDeleteFiles first ⟨target, []⟩)

end PlannedDataFile

/-! ## The sink -/

/-- The vector writer of iceberg-lite: `mergeExistingPositionDeleteFile` answers whether
the merged file could be removed, `close` lists the vectors and the data files they
are for. -/
structure DeletionVectorFileWriter (S W : Type) where
  new : W
  mergeExistingPositionDeleteFile :
    ReferencedDataFile S → DeleteFile → W → Except IcebergError (Bool × W)
  deleteAll : ReferencedDataFile S → Finset ℕ → W → Except IcebergError W
  close : W → Except IcebergError (List DeleteFile × List String)

structure RowDeleteOutput where
  deleteFile : DeleteFile
  referencedDataFiles : List String
  removedDeleteFiles : Finset DeleteFileIdentity

abbrev RemovedByTarget := String → Finset DeleteFileIdentity

section Sink

variable {W : Type} (writer : DeletionVectorFileWriter S W)

def mergeExisting (target : ReferencedDataFile S) (state : W × Finset DeleteFileIdentity)
    (existing : FileScanTaskDeleteFile) : Except IcebergError (W × Finset DeleteFileIdentity) := do
  let (canRemove, vectors) ←
    writer.mergeExistingPositionDeleteFile target existing.toDeleteFile state.1
  if canRemove && existing.canRemoveAfterDvRewrite then
    return (vectors, insert existing.identity state.2)
  else return (vectors, state.2)

variable [EmptyCollection S] [DecidableEq S]

def writeFile (registry : RelationRowRegistry) (scanTasks : PlannedMutationTasks S)
    (state : W × RemovedByTarget) (entry : IcebergFileId × OwnedRowPositions) :
    Except IcebergError (W × RemovedByTarget) := do
  let path ← registry.filePath entry.1
  let tasks ← scanTasks.tasksForPath path
  let planned ← PlannedDataFile.fromScanTasks path tasks
  let (vectors, removed) ← planned.positionDeleteFiles.foldlM
    (mergeExisting writer planned.target) (state.1, state.2 planned.target.filePath)
  let vectors ← writer.deleteAll planned.target (registry.rowsOf entry.2) vectors
  return (vectors, Function.update state.2 planned.target.filePath removed)

/-- The removed files go with the first vector of their data file. -/
def collectOutputs : List (DeleteFile × String) → RemovedByTarget → List RowDeleteOutput
  | [], _ => []
  | (deleteFile, referenced) :: rest, removed =>
    ⟨deleteFile, [referenced], removed referenced⟩ ::
      collectOutputs rest (Function.update removed referenced ∅)

def writeFiles (deletes : List (IcebergFileId × OwnedRowPositions))
    (registry : RelationRowRegistry) (scanTasks : PlannedMutationTasks S) :
    Except IcebergError (List RowDeleteOutput) := do
  let (vectors, removed) ←
    deletes.foldlM (writeFile writer registry scanTasks) (writer.new, fun _ => ∅)
  let (deleteFiles, referencedDataFiles) ← writer.close vectors
  return collectOutputs (deleteFiles.zip referencedDataFiles) removed

end Sink

end LagoDB.DeletionVectors
