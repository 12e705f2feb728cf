import LagoDB.ActionLog
import LagoDB.ExceptLoop
import Mathlib.Data.List.AList

/-!
# File cleanup of VACUUM

`cleanup_candidates` collects the files of expired snapshots, subtracts what the
new table still reaches and does the same to a listing of old files. Both
traversals remember the manifest lists and manifests they have read, and the
subtraction stops early once nothing is left to subtract from.

Hash sets are lists that are read through membership only; their iteration order
is arbitrary in the source and no result below depends on it.
-/
namespace LagoDB.Reachability

open ActionLog

/-! ## Tables -/

inductive ManifestContentType where
  | data
  | deletes
  deriving DecidableEq

structure ManifestFile where
  manifestPath : String
  content : ManifestContentType
  deriving DecidableEq

structure ManifestEntry where
  filePath : String
  isAlive : Bool
  deriving DecidableEq

structure Snapshot where
  snapshotId : ℤ
  manifestList : String
  deriving DecidableEq

/-- Orphan cleanup knows two backends; both list by root and age. -/
inductive Storage where
  | localStorage (listOlderThan : String → ℤ → Except IcebergError (List String))
  | objectStorage (listOlderThan : String → ℤ → Except IcebergError (List String))
  | other

structure FileIO where
  readManifestList : String → Except IcebergError (List ManifestFile)
  readManifest : String → Except IcebergError (List ManifestEntry)
  storage : Storage

structure TableMetadata where
  location : String
  snapshots : List Snapshot
  metadataLog : List String
  statisticsForSnapshot : ℤ → Option String
  partitionStatisticsForSnapshot : ℤ → Option String

structure Table where
  metadataLocation : Option String
  metadata : TableMetadata
  fileIo : FileIO

structure ManagedTableRoot where
  root : String
  childPrefix : String

variable (root : ManagedTableRoot)

def ManagedTableRoot.ensurePath (path : String) :
    Except IcebergError Unit :=
  if (path.toList.splitOn '/').any (fun segment => segment == ['.', '.']) ||
      !root.childPrefix.toList.isPrefixOf path.toList then
    .error (.vacuum path)
  else .ok ()

/-! ## Candidates -/

inductive CandidateKind where
  | data
  | delete
  | manifest
  | manifestList
  | statistics
  | metadata
  deriving DecidableEq

namespace CandidateKind

def isSnapshotObject : CandidateKind → Bool
  | .data | .delete | .manifest | .manifestList => true
  | _ => false

def isStatistics (kind : CandidateKind) : Bool := kind = .statistics

def ofContent : ManifestContentType → CandidateKind
  | .data => .data
  | .deletes => .delete

end CandidateKind

abbrev Candidates := AList fun _ : String => CandidateKind

/-- `entry(path).or_insert(kind)`. -/
def orInsert (candidates : Candidates) (path : String) (kind : CandidateKind) : Candidates :=
  if path ∈ candidates then candidates else candidates.insert path kind

/-- `values().filter(test).count()`. -/
def countKind (test : CandidateKind → Bool) (candidates : Candidates) : ℕ :=
  candidates.entries.countP fun entry => test entry.2

/-- Why a run ends without a result: an error is returned, or an `expect`
fires. -/
inductive Stop where
  | error (error : IcebergError)
  | panicked (message : String)
  deriving DecidableEq

def returned {α : Type} : Except IcebergError α → Except Stop α
  | .ok value => .ok value
  | .error error => .error (.error error)

/-! ## Traversal -/

/-- Manifest lists and manifests already read by one traversal. -/
structure Walked where
  lists : List String
  manifests : List String

section Walk

variable {σ : Type} (visit : CandidateKind → String → σ → Except Stop σ) (io : FileIO)

def walkEntry (content : ManifestContentType) (state : σ) (entry : ManifestEntry) :
    Except Stop σ :=
  if entry.isAlive then visit (.ofContent content) entry.filePath state else .ok state

def walkManifest (file : ManifestFile) (state : σ) : Except Stop σ := do
  let entries ← returned (io.readManifest file.manifestPath)
  entries.foldlM (walkEntry visit file.content) state

/-- A manifest is visited every time it is listed and read only once. -/
def walkFile (s : Walked × σ) (file : ManifestFile) : Except Stop (Walked × σ) := do
  let state ← visit .manifest file.manifestPath s.2
  if file.manifestPath ∈ s.1.manifests then .ok (s.1, state)
  else
    let walked := { s.1 with manifests := file.manifestPath :: s.1.manifests }
    let state ← walkManifest visit io file state
    .ok (walked, state)

/-- The traversal shared by `seed_snapshot_candidates` and `visit_snapshot`. -/
def walkSnapshot (snapshot : Snapshot) (s : Walked × σ) : Except Stop (Walked × σ) := do
  let state ← visit .manifestList snapshot.manifestList s.2
  if snapshot.manifestList ∈ s.1.lists then .ok (s.1, state)
  else
    let walked := { s.1 with lists := snapshot.manifestList :: s.1.lists }
    let files ← returned (io.readManifestList snapshot.manifestList)
    files.foldlM (walkFile visit io) (walked, state)

variable (metadata : TableMetadata)

/-- The statistics and partition statistics files of one snapshot, in visiting
order. -/
def statisticsPaths (snapshotId : ℤ) : List String :=
  (metadata.statisticsForSnapshot snapshotId).toList ++
    (metadata.partitionStatisticsForSnapshot snapshotId).toList

def visitStatistics (snapshotId : ℤ) (state : σ) : Except Stop σ :=
  (statisticsPaths metadata snapshotId).foldlM (fun state path => visit .statistics path state)
    state

end Walk

structure IcebergReachabilityPlanner where
  seeded : Walked
  visited : Walked

def IcebergReachabilityPlanner.default : IcebergReachabilityPlanner := ⟨⟨[], []⟩, ⟨[], []⟩⟩

/-! ## Seeding -/

def seed (kind : CandidateKind) (path : String) (candidates : Candidates) :
    Except Stop Candidates :=
  .ok (orInsert candidates path kind)

variable (table : Table)

def seedSnapshotCandidates (snapshot : Snapshot) (s : Walked × Candidates) :
    Except Stop (Walked × Candidates) :=
  walkSnapshot seed table.fileIo snapshot s

def seedExpired (before : Table) (retainedIds : List ℤ) (s : Walked × Candidates)
    (snapshot : Snapshot) : Except Stop (Walked × Candidates) :=
  if snapshot.snapshotId ∈ retainedIds then .ok s
  else do
    let s ← seedSnapshotCandidates before snapshot s
    let candidates ← visitStatistics seed before.metadata snapshot.snapshotId s.2
    .ok (s.1, candidates)

def metadataFiles : List String :=
  table.metadataLocation.toList ++ table.metadata.metadataLog

def seedMetadata (before after : Table) (candidates : Candidates) : Candidates :=
  (metadataFiles before).foldl (fun candidates path =>
    if path ∈ metadataFiles after then candidates else orInsert candidates path .metadata)
    candidates

/-! ## Subtraction -/

structure Sweep where
  candidates : Candidates
  snapshotCandidateCount : ℕ
  statisticsCandidateCount : ℕ
  orphanCandidates : List String

/-- `HashSet::remove`. -/
def removePath (paths : List String) (path : String) : List String :=
  paths.filter fun other => other ≠ path

def removeCandidate (path : String) (s : Sweep) : Except Stop Sweep :=
  match s.candidates.lookup path with
  | none => .ok s
  | some kind =>
    let s := { s with candidates := s.candidates.erase path }
    if kind.isSnapshotObject then
      if s.snapshotCandidateCount = 0 then
        .error (.panicked "snapshot candidate count tracks the candidate map")
      else .ok { s with snapshotCandidateCount := s.snapshotCandidateCount - 1 }
    else if kind.isStatistics then
      if s.statisticsCandidateCount = 0 then
        .error (.panicked "statistics candidate count tracks the candidate map")
      else .ok { s with statisticsCandidateCount := s.statisticsCandidateCount - 1 }
    else .ok s

/-- The visitor of the retained history. -/
def subtract (_kind : CandidateKind) (path : String) (s : Sweep) : Except Stop Sweep := do
  let s ← removeCandidate path s
  .ok { s with orphanCandidates := removePath s.orphanCandidates path }

/-- The loop over retained snapshots with its `break` and its `continue`. -/
def subtractRetained (after : Table) :
    List Snapshot → Walked × Sweep → Except Stop (Walked × Sweep)
  | [], s => .ok s
  | snapshot :: rest, s =>
    if s.2.snapshotCandidateCount = 0 ∧ s.2.statisticsCandidateCount = 0 ∧
        s.2.orphanCandidates = [] then .ok s
    else do
      let sweep ← visitStatistics subtract after.metadata snapshot.snapshotId s.2
      if sweep.snapshotCandidateCount = 0 ∧ sweep.orphanCandidates = [] then
        subtractRetained after rest (s.1, sweep)
      else
        let s ← walkSnapshot subtract after.fileIo snapshot (s.1, sweep)
        subtractRetained after rest s

def listOrphanCandidates (olderThanMs : ℤ) : Except IcebergError (List String) :=
  match table.fileIo.storage with
  | .localStorage list => list table.metadata.location olderThanMs
  | .objectStorage list => list table.metadata.location olderThanMs
  | .other =>
    .error (.invariantViolated "orphan cleanup requires a known local or object storage backend")

def orphanListing (after : Table) : Option ℤ → Except IcebergError (List String)
  | some olderThanMs => listOrphanCandidates after olderThanMs
  | none => .ok []

/-! ## The result -/

structure ReachabilityDeletionCandidates where
  paths : List String
  data : ℕ
  delete : ℕ
  manifest : ℕ
  manifestList : ℕ
  statistics : ℕ
  metadata : ℕ

/-- `checked_add` on a `u64` counter. -/
def increment (count : ℕ) : Except Stop ℕ :=
  if count + 1 < 2 ^ 64 then .ok (count + 1)
  else .error (.error (.vacuum "reachability candidate count overflow"))

def countCandidate (result : ReachabilityDeletionCandidates) :
    CandidateKind → Except Stop ReachabilityDeletionCandidates
  | .data => do .ok { result with data := ← increment result.data }
  | .delete => do .ok { result with delete := ← increment result.delete }
  | .manifest => do .ok { result with manifest := ← increment result.manifest }
  | .manifestList => do .ok { result with manifestList := ← increment result.manifestList }
  | .statistics => do .ok { result with statistics := ← increment result.statistics }
  | .metadata => do .ok { result with metadata := ← increment result.metadata }

def validateOwnedCandidates (paths : List String) :
    Except Stop Unit :=
  paths.forM fun path => returned (root.ensurePath path)

/-- What is left after the subtraction, validated and counted. -/
def finishCandidates (after : Table) (root : ManagedTableRoot) (sweep : Sweep) :
    Except Stop (ReachabilityDeletionCandidates × List String) := do
  let candidates := (metadataFiles after).foldl (fun map path => map.erase path) sweep.candidates
  let orphans := (metadataFiles after).foldl removePath sweep.orphanCandidates
  validateOwnedCandidates root candidates.keys
  validateOwnedCandidates root orphans
  let result ← (candidates.entries.map (·.2)).foldlM countCandidate ⟨[], 0, 0, 0, 0, 0, 0⟩
  let paths := candidates.keys
  .ok ({ result with paths := paths }, orphans.filter fun path => path ∉ paths)

def cleanupCandidates (planner : IcebergReachabilityPlanner) (before after : Table)
    (orphanOlderThanMs : Option ℤ) (root : ManagedTableRoot) :
    Except Stop (ReachabilityDeletionCandidates × List String) := do
  let retainedIds := after.metadata.snapshots.map (·.snapshotId)
  let seeded ← before.metadata.snapshots.foldlM (seedExpired before retainedIds)
    (planner.seeded, ∅)
  let candidates := seedMetadata before after seeded.2
  let listed ← returned (orphanListing after orphanOlderThanMs)
  let sweep : Sweep :=
    { candidates := candidates
      snapshotCandidateCount := countKind (·.isSnapshotObject) candidates
      statisticsCandidateCount := countKind (·.isStatistics) candidates
      orphanCandidates := (metadataFiles after).foldl removePath listed }
  let swept ← subtractRetained after after.metadata.snapshots (planner.visited, sweep)
  finishCandidates after root swept.2

end LagoDB.Reachability
