import LagoDB.CommitPlan
import LagoDB.TableState

/-!
# Staged creation of foreign tables

A `CREATE FOREIGN TABLE` over a missing remote table stages its definition in the
transaction. The definition has one local owner. Once that relation is dropped another
one may replace the generation; the replaced ones are kept for savepoint restoration
and for the removal of the files they created.

The catalogs and tables of one transaction are keyed by the server, the role and the
remote table. Stacks have their top at the head, so `Vec::last` is `List.head?` and
`Vec::first` is `List.getLast?`. The row registry of a generation has a savepoint
history of its own and is left out.
-/
namespace LagoDB.StagedCreates

open ActionLog Savepoint TableState

variable {T : Provider} {B C F : Type}

/-! ## Identities -/

structure CatalogAccessIdentity where
  serverOid : ℕ
  effectiveUser : ℕ
  deriving DecidableEq

structure RemoteTableKey where
  catalog : CatalogAccessIdentity
  table : String
  deriving DecidableEq

inductive IcebergFdwError where
  | stagedTableAlreadyProvisioned (table : String)
  | tableGenerationConflict (table : String)
  | catalogConfigurationChanged
  | iceberg (error : IcebergError)
  deriving DecidableEq

/-- The files created by the data of the log, from a hash set, sorted. -/
def createdFilePaths (log : TxTableActionLog T) : Except IcebergError (List String) := do
  let paths ← log.actions.foldlM (fun paths action =>
    match action with
    | .data epoch => do
      let delta ← epoch.delta.1
      pure (paths ++ T.createdFilePaths delta)
    | _ => pure paths) []
  pure (paths.dedup.mergeSort (· ≤ ·))

/-! ## Generations -/

structure StagedRelation where
  oid : ℕ
  createdAt : ℕ
  droppedAt : Option ℕ
  deriving DecidableEq

namespace StagedRelation

def new (oid createdAt : ℕ) : StagedRelation := ⟨oid, createdAt, none⟩

variable (relation : StagedRelation)

def isActive : Bool := relation.droppedAt.isNone

def rollbackToLevel (level : ℕ) : StagedRelation :=
  { relation with droppedAt := relation.droppedAt.filter (· < level) }

def promoteToLevel (level : ℕ) : StagedRelation :=
  { relation with
    createdAt := promoteLevel level relation.createdAt
    droppedAt := relation.droppedAt.map (promoteLevel level) }

end StagedRelation

/-- What iceberg-lite returns for a staged creation: the table it will become. -/
structure StagedTableCreate (B : Type) where
  table : B
  deriving DecidableEq

inductive ForeignTableOrigin (B : Type) where
  | published
  | stagedCreate (nestLevel : ℕ) (staged : StagedTableCreate B) (relation : StagedRelation)

structure ForeignTableGeneration (T : Provider) (B : Type) where
  base : B
  origin : ForeignTableOrigin B
  transaction : TableTransactionState T

namespace ForeignTableGeneration

def staged (relationOid nestLevel : ℕ) (staged : StagedTableCreate B) :
    ForeignTableGeneration T B :=
  ⟨staged.table, .stagedCreate nestLevel staged (.new relationOid nestLevel), .new⟩

variable (generation : ForeignTableGeneration T B)

/-- The local owner of a staged definition. -/
def relation? : Option StagedRelation :=
  match generation.origin with
  | .published => none
  | .stagedCreate _ _ relation => some relation

def createdLevel : Option ℕ :=
  match generation.origin with
  | .published => none
  | .stagedCreate nestLevel _ _ => some nestLevel

def isStagedCreate : Bool :=
  generation.createdLevel.isSome

def stagedAtOrAfter (level : ℕ) : Bool :=
  generation.createdLevel.any (level ≤ ·)

def ownsStagedRelation (relationOid : ℕ) : Bool :=
  generation.relation?.any fun relation => relation.oid == relationOid

def hasActiveStagedRelation : Bool :=
  generation.relation?.any StagedRelation.isActive

/-- The drop level is set before the drop is recorded in the log. -/
def dropStagedRelation (relationOid level : ℕ) :
    ForeignTableGeneration T B × Except IcebergError Bool :=
  match generation.origin with
  | .published => (generation, .ok false)
  | .stagedCreate nestLevel staged relation =>
    if relation.oid ≠ relationOid then (generation, .ok false)
    else
      let recorded := generation.transaction.recordDrop level
      (⟨generation.base,
        .stagedCreate nestLevel staged { relation with droppedAt := some level },
        recorded.1⟩, recorded.2.map fun _ => true)

def rollbackToLevel (generation : ForeignTableGeneration T B) (level : ℕ) :
    ForeignTableGeneration T B where
  base := generation.base
  origin :=
    match generation.origin with
    | .published => .published
    | .stagedCreate nestLevel staged relation =>
      .stagedCreate nestLevel staged (relation.rollbackToLevel level)
  transaction := generation.transaction.rollbackToLevel level

def promoteToLevel (generation : ForeignTableGeneration T B) (level : ℕ) :
    ForeignTableGeneration T B where
  base := generation.base
  origin :=
    match generation.origin with
    | .published => .published
    | .stagedCreate nestLevel staged relation =>
      .stagedCreate (promoteLevel level nestLevel) staged (relation.promoteToLevel level)
  transaction := generation.transaction.promoteToLevel level

/-- `fileIo` is `Table::file_io` of iceberg-lite. -/
def canceledFiles (fileIo : B → F) (generation : ForeignTableGeneration T B) :
    Except IcebergError (F × List String) := do
  let paths ← createdFilePaths generation.transaction.actions
  pure (fileIo generation.base, paths)

end ForeignTableGeneration

structure SupersededGeneration (T : Provider) (B : Type) where
  replacedAt : ℕ
  generation : ForeignTableGeneration T B

inductive StagedCreateDisposition where
  | published
  | activeStaged
  | replaceDropped
  deriving DecidableEq

structure ForeignTableState (T : Provider) (B : Type) where
  current : ForeignTableGeneration T B
  superseded : List (SupersededGeneration T B)

namespace ForeignTableState

def staged (relationOid nestLevel : ℕ) (staged : StagedTableCreate B) : ForeignTableState T B :=
  ⟨.staged relationOid nestLevel staged, []⟩

variable (state : ForeignTableState T B)

def stagedCreateDisposition : StagedCreateDisposition :=
  match state.current.relation? with
  | none => .published
  | some relation => if relation.isActive then .activeStaged else .replaceDropped

def hasCatalogChanges : Bool :=
  match state.current.relation? with
  | none => !state.current.transaction.actions.isEmpty
  | some relation => relation.isActive

def replaceDroppedStagedGeneration (relationOid level : ℕ)
    (staged : StagedTableCreate B) : ForeignTableState T B :=
  ⟨.staged relationOid level staged, ⟨level, state.current⟩ :: state.superseded⟩

def dropStagedRelation (state : ForeignTableState T B) (relationOid level : ℕ) :
    ForeignTableState T B × Except IcebergError Bool :=
  let dropped := state.current.dropStagedRelation relationOid level
  ({ state with current := dropped.1 }, dropped.2)

def recordBatch (state : ForeignTableState T B) (level : ℕ) (batch : TxWriteBatch T) :
    ForeignTableState T B × Except IcebergError Unit :=
  let recorded := state.current.transaction.recordBatch level batch
  ({ state with current := { state.current with transaction := recorded.1 } }, recorded.2)

/-- Whole-state removal follows the oldest retained creation. -/
def stagedAtOrAfter (state : ForeignTableState T B) (level : ℕ) : Bool :=
  match state.superseded.getLast? with
  | none => state.current.stagedAtOrAfter level
  | some oldest => oldest.generation.stagedAtOrAfter level

/-- The pop loop of `rollback_to_level`. -/
def restoreSuperseded (level : ℕ) :
    List (SupersededGeneration T B) → ForeignTableGeneration T B → ForeignTableState T B
  | [], current => ⟨current, []⟩
  | newest :: rest, current =>
    if level ≤ newest.replacedAt then restoreSuperseded level rest newest.generation
    else ⟨current, newest :: rest⟩

def rollbackToLevel (state : ForeignTableState T B) (level : ℕ) : ForeignTableState T B :=
  let restored := restoreSuperseded level state.superseded state.current
  { restored with current := restored.current.rollbackToLevel level }

def promoteSuperseded (level : ℕ) (superseded : SupersededGeneration T B) :
    SupersededGeneration T B :=
  ⟨promoteLevel level superseded.replacedAt, superseded.generation.promoteToLevel level⟩

def promoteToLevel (state : ForeignTableState T B) (level : ℕ) : ForeignTableState T B :=
  ⟨state.current.promoteToLevel level, state.superseded.map (promoteSuperseded level)⟩

/-- The generations whose files nothing will publish, oldest first. -/
def canceledGenerations : List (ForeignTableGeneration T B) :=
  state.superseded.reverse.map (·.generation) ++
    if state.current.isStagedCreate && !state.current.hasActiveStagedRelation then
      [state.current]
    else []

def canceledFiles (fileIo : B → F) (state : ForeignTableState T B) :
    Except IcebergError (List (F × List String)) :=
  state.canceledGenerations.mapM (·.canceledFiles fileIo)

end ForeignTableState

/-! ## The transaction -/

/-- What a transaction keeps of a catalog besides its tables. -/
structure CatalogTransactionState (C : Type) where
  runtimeConfig : C
  invalidated : Bool
  deriving DecidableEq

structure CatalogSession (C : Type) where
  identity : CatalogAccessIdentity
  runtimeConfig : C
  deriving DecidableEq

abbrev Catalogs (C : Type) := List (CatalogAccessIdentity × CatalogTransactionState C)

namespace Catalogs

variable (catalogs : Catalogs C)

def validate [DecidableEq C] (session : CatalogSession C) :
    Except IcebergFdwError Unit :=
  match catalogs.find? fun entry => entry.1 == session.identity with
  | none => .ok ()
  | some (_, catalog) =>
    if catalog.invalidated ∨ catalog.runtimeConfig ≠ session.runtimeConfig then
      .error .catalogConfigurationChanged
    else .ok ()

/-- `HashMap::entry(identity).or_insert_with(new)`. -/
def enroll (session : CatalogSession C) : Catalogs C :=
  if catalogs.any fun entry => entry.1 == session.identity then catalogs
  else catalogs ++ [(session.identity, ⟨session.runtimeConfig, false⟩)]

def invalidate (hits : CatalogAccessIdentity → Bool) : Catalogs C :=
  catalogs.map fun entry =>
    (entry.1, { entry.2 with invalidated := entry.2.invalidated || hits entry.1 })

end Catalogs

/-- `HashMap::get_mut`. -/
def modifyEntry {σ : Type} (key : RemoteTableKey) (f : σ → σ) (tables : List (RemoteTableKey × σ)) :
    List (RemoteTableKey × σ) :=
  tables.map fun entry => if entry.1 = key then (entry.1, f entry.2) else entry

/-- The loop of `staged_create_disposition` over the tables of the server, whatever the
role. An active owner ends it. -/
def dispositionAmong (key : RemoteTableKey) :
    List (RemoteTableKey × StagedCreateDisposition) → Option StagedCreateDisposition →
      Option StagedCreateDisposition
  | [], disposition => disposition
  | (existing, state) :: rest, disposition =>
    if existing.catalog.serverOid = key.catalog.serverOid ∧ existing.table = key.table then
      match state with
      | .activeStaged => some .activeStaged
      | .published => dispositionAmong key rest (some .published)
      | .replaceDropped =>
        dispositionAmong key rest (some (disposition.getD .replaceDropped))
    else dispositionAmong key rest disposition

abbrev Tables (T : Provider) (B : Type) := List (RemoteTableKey × ForeignTableState T B)

namespace Tables

def stagedCreateDisposition (tables : Tables T B) (key : RemoteTableKey) :
    Option StagedCreateDisposition :=
  dispositionAmong key (tables.map fun entry => (entry.1, entry.2.stagedCreateDisposition)) none

variable (tables : Tables T B)

/-- The end of `stage_create`: the entry of the key is occupied or vacant. -/
def insertStaged (key : RemoteTableKey) (relationOid level : ℕ)
    (staged : StagedTableCreate B) : Tables T B :=
  if tables.any fun entry => entry.1 == key then
    modifyEntry key (·.replaceDroppedStagedGeneration relationOid level staged) tables
  else tables ++ [(key, .staged relationOid level staged)]

/-- The first table whose current generation the relation owns. -/
def ownerOf (relationOid : ℕ) :
    Option (RemoteTableKey × ForeignTableState T B) :=
  tables.find? fun entry => entry.2.current.ownsStagedRelation relationOid

def dropStagedRelation (tables : Tables T B) (relationOid level : ℕ) :
    Tables T B × Except IcebergError Bool :=
  match tables.ownerOf relationOid with
  | none => (tables, .ok false)
  | some entry =>
    (modifyEntry entry.1 (fun state => (state.dropStagedRelation relationOid level).1) tables,
      (entry.2.dropStagedRelation relationOid level).2.map fun _ => true)

def stageBatch (key : RemoteTableKey) (level : ℕ)
    (batch : TxWriteBatch T) : Tables T B × Except IcebergError Unit :=
  match tables.find? fun entry => entry.1 == key with
  | none =>
    (tables, .error (.invariantViolated
      "foreign table mutation was staged before write enrollment"))
  | some entry =>
    (modifyEntry key (fun state => (state.recordBatch level batch).1) tables,
      (entry.2.recordBatch level batch).2)

def rollbackToLevel (tables : Tables T B) (level : ℕ) : Tables T B :=
  (tables.filter fun entry => !entry.2.stagedAtOrAfter level).map fun entry =>
    (entry.1, entry.2.rollbackToLevel level)

def promoteToLevel (tables : Tables T B) (level : ℕ) : Tables T B :=
  tables.map fun entry => (entry.1, entry.2.promoteToLevel level)

/-- The files registered for removal when the transaction commits. -/
def canceledFiles (fileIo : B → F) (tables : Tables T B) :
    Except IcebergError (List (F × List String)) := do
  let canceled ← tables.foldlM (fun canceled entry => do
    let files ← entry.2.canceledFiles fileIo
    pure (canceled ++ files)) []
  pure (canceled.filter fun files => !files.2.isEmpty)

end Tables

/-- The tables of all catalogs stand in one list: their keys name the catalog. -/
structure ForeignTransactionInner (T : Provider) (B C : Type) where
  catalogs : Catalogs C
  tables : Tables T B

namespace ForeignTransactionInner

/-- `staged` is what the catalog answered to `stage_create_table`. -/
def stageCreate [DecidableEq C] (inner : ForeignTransactionInner T B C) (relationOid level : ℕ)
    (key : RemoteTableKey) (session : CatalogSession C)
    (staged : Except IcebergFdwError (StagedTableCreate B)) :
    Except IcebergFdwError (ForeignTransactionInner T B C) := do
  inner.catalogs.validate session
  match inner.tables.stagedCreateDisposition key with
  | some .activeStaged => .error (.stagedTableAlreadyProvisioned key.table)
  | some .published => .error (.tableGenerationConflict key.table)
  | some .replaceDropped | none =>
    let staged ← staged
    pure ⟨inner.catalogs.enroll session, inner.tables.insertStaged key relationOid level staged⟩

/-- The entry check of `prepare_publication`, then the files it registers for removal. -/
def preparePublication (fileIo : B → F) (inner : ForeignTransactionInner T B C) :
    Except IcebergFdwError (List (F × List String)) :=
  if inner.catalogs.any fun catalog => catalog.2.invalidated &&
      inner.tables.any fun entry =>
        entry.1.catalog == catalog.1 && entry.2.hasCatalogChanges then
    .error .catalogConfigurationChanged
  else (inner.tables.canceledFiles fileIo).mapError .iceberg

end ForeignTransactionInner

end LagoDB.StagedCreates
