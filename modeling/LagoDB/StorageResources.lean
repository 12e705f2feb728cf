import LagoDB.ActionLog
import LagoDB.Savepoint

/-!
# Files created by a transaction

The storage registry tracks every file the transaction creates under the nesting level
it was created at. A release hands the files of a subtransaction to its parent, an
abort takes them out of the registry and removes them. While a metadata attempt runs,
it takes what is tracked: a promoted attempt is kept with the transaction, a rejected
one is cleaned at once, and what could not be cleaned is tried again at the end.
-/
namespace LagoDB.StorageResources

open ActionLog Savepoint List

inductive ObjectFileState where
  | staged
  | uploaded
  deriving DecidableEq

inductive StorageResource where
  | createdLocalFile (path : String)
  | createdTableDir (location : String)
  | objectFile (location stagingPath : String) (state : ObjectFileState)
  deriving DecidableEq

def StorageResource.path : StorageResource → String
  | .createdLocalFile path => path
  | .createdTableDir location => location
  | .objectFile location _ _ => location

/-! ## Metadata attempts

`R` is the type of tracked resources. The functions give back the registry also when
they fail. -/

structure MetadataAttemptState (R : Type) where
  id : ℕ
  resources : List R

structure MetadataResourceRegistry (R : Type) where
  activeAttempt : Option (MetadataAttemptState R)
  promoted : List R
  cleanupRequired : List R
  nextAttemptId : ℕ

variable {R : Type}

namespace MetadataResourceRegistry

def new : MetadataResourceRegistry R := ⟨none, [], [], 1⟩

variable (registry : MetadataResourceRegistry R)

/-- Attempt ids are `u32`, so handing out the last one overflows. -/
def beginAttempt (nestLevel : ℕ) : Except IcebergError ℕ × MetadataResourceRegistry R :=
  if nestLevel ≠ 1 then
    (.error (.invariantViolated "metadata resource attempts require top-level transaction context"),
      registry)
  else if registry.activeAttempt.isSome then
    (.error (.invariantViolated "metadata resource attempts cannot be nested"), registry)
  else if 2 ^ 32 ≤ registry.nextAttemptId + 1 then
    (.error (.invariantViolated "metadata resource attempt id overflow"), registry)
  else
    (.ok registry.nextAttemptId,
      { registry with
        activeAttempt := some ⟨registry.nextAttemptId, []⟩
        nextAttemptId := registry.nextAttemptId + 1 })

/-- Files written while an attempt is active belong to it. -/
def track (resources : List R) : MetadataResourceRegistry R :=
  { registry with
    activeAttempt := registry.activeAttempt.map fun attempt =>
      { attempt with resources := attempt.resources ++ resources } }

/-- The attempt is taken out first and put back when it is another one. -/
def takeAttempt (id : ℕ) : Except IcebergError (List R) × MetadataResourceRegistry R :=
  let taken := { registry with activeAttempt := none }
  match registry.activeAttempt with
  | none => (.error (.invariantViolated "metadata resource attempt is not active"), taken)
  | some attempt =>
    if attempt.id ≠ id then
      (.error (.invariantViolated "metadata resource attempt is not active"),
        { taken with activeAttempt := some attempt })
    else (.ok attempt.resources, taken)

def promoteAttempt (id : ℕ) : Except IcebergError Unit × MetadataResourceRegistry R :=
  match registry.takeAttempt id with
  | (.error error, registry) => (.error error, registry)
  | (.ok resources, registry) =>
    (.ok (), { registry with promoted := registry.promoted ++ resources })

/-- `discard_metadata_attempt`: the resources are cleaned in reverse order. `onAbort`
deletes one and returns it when the deletion failed; it is then kept for the end. -/
def discardAttempt (onAbort : R → Option R) (id : ℕ) :
    Except IcebergError (List R) × MetadataResourceRegistry R :=
  match registry.takeAttempt id with
  | (.error error, registry) => (.error error, registry)
  | (.ok resources, registry) =>
    (.ok resources.reverse,
      { registry with
        cleanupRequired := registry.cleanupRequired ++ resources.reverse.filterMap onAbort })

/-- What is kept and what is cleaned at the end of the transaction. -/
def drainTopLevel : List R × List R :=
  (registry.promoted,
    registry.cleanupRequired ++
      registry.activeAttempt.elim [] fun attempt => attempt.resources.reverse)

variable {registry} {id : ℕ}

lemma takeAttempt_other (h : ∀ attempt, registry.activeAttempt = some attempt → attempt.id ≠ id) :
    registry.takeAttempt id =
      (.error (.invariantViolated "metadata resource attempt is not active"), registry) := by
  obtain ⟨a, p, c, n⟩ := registry
  cases a with
  | none => rfl
  | some attempt => simp [takeAttempt, h attempt rfl]

variable {attempt : MetadataAttemptState R}

lemma takeAttempt_active (h : registry.activeAttempt = some attempt) :
    registry.takeAttempt attempt.id =
      (.ok attempt.resources, { registry with activeAttempt := none }) := by
  simp [takeAttempt, h]

end MetadataResourceRegistry

/-! ## The registry -/

structure TrackedResource (R : Type) where
  nestLevel : ℕ
  resource : R
  deriving DecidableEq

structure StorageResourceRegistry (R : Type) where
  entries : List (TrackedResource R)
  metadata : MetadataResourceRegistry R

open StorageResourceRegistry

namespace StorageResourceRegistry

def new : StorageResourceRegistry R := ⟨[], .new⟩

/-- A running attempt takes the resource. -/
def track (registry : StorageResourceRegistry R) (nestLevel : ℕ) (resource : R) :
    StorageResourceRegistry R :=
  if registry.metadata.activeAttempt.isSome then
    { registry with metadata := registry.metadata.track [resource] }
  else { registry with entries := registry.entries ++ [⟨nestLevel, resource⟩] }

def promoteEntry (released : ℕ) (entry : TrackedResource R) : TrackedResource R :=
  { entry with nestLevel := promoteLevel released entry.nestLevel }

def promoteSubtransactionResources (registry : StorageResourceRegistry R) (nestLevel : ℕ) :
    StorageResourceRegistry R :=
  { registry with entries := registry.entries.map (promoteEntry nestLevel) }

def takeAbortedSubtransactionResources (registry : StorageResourceRegistry R) (nestLevel : ℕ) :
    List (TrackedResource R) × StorageResourceRegistry R :=
  (registry.entries.filter fun entry => nestLevel ≤ entry.nestLevel,
    { registry with entries := registry.entries.filter fun entry => entry.nestLevel < nestLevel })

def trackedPaths (registry : StorageResourceRegistry StorageResource) : List String :=
  registry.entries.map fun entry => entry.resource.path

@[simp] lemma trackedPaths_track {registry : StorageResourceRegistry StorageResource}
    (h : registry.metadata.activeAttempt = none) (l : ℕ) (r : StorageResource) :
    (registry.track l r).trackedPaths = registry.trackedPaths ++ [r.path] := by
  simp [track, trackedPaths, h]

variable (registry : StorageResourceRegistry StorageResource)

@[simp] lemma trackedPaths_promote (r : ℕ) :
    (registry.promoteSubtransactionResources r).trackedPaths = registry.trackedPaths := by
  simp [promoteSubtransactionResources, trackedPaths, promoteEntry]

lemma trackedPaths_abort (l : ℕ) : registry.trackedPaths.Perm
      ((registry.takeAbortedSubtransactionResources l).2.trackedPaths ++
        (registry.takeAbortedSubtransactionResources l).1.map fun e => e.resource.path) := by
  have hs := filter_append_perm (fun e : TrackedResource StorageResource =>
    decide (e.nestLevel < l)) registry.entries
  have hp := hs.symm.map fun e : TrackedResource StorageResource => e.resource.path
  rw [map_append] at hp
  simpa only [takeAbortedSubtransactionResources, trackedPaths, ← decide_not, not_lt] using hp

end StorageResourceRegistry

/-! ## Savepoints -/

/-- No entry lies above the current level, and no metadata attempt is running. -/
structure Bounded (level : ℕ) (registry : StorageResourceRegistry StorageResource) : Prop where
  levels : ∀ entry ∈ registry.entries, entry.nestLevel ≤ level
  attempt : registry.metadata.activeAttempt = none

lemma undo_entries (registry : StorageResourceRegistry StorageResource) (t : ℕ) :
    (registry.takeAbortedSubtransactionResources t).2.entries =
      registry.entries.filter fun e => e.nestLevel < t := rfl

/-- The registry as a leveled component: its actions are the creations of files. -/
def storageRegistry :
    Component (StorageResourceRegistry StorageResource) (List String) StorageResource where
  view := trackedPaths
  apply resource paths := paths ++ [resource.path]
  act level resource registry := registry.track level resource
  undo target registry := (registry.takeAbortedSubtransactionResources target).2
  promote released registry := registry.promoteSubtransactionResources released
  inv := Bounded
  act_view _ resource _ h := trackedPaths_track h.attempt _ resource
  act_inv level resource registry _ h := by
    simp only [track, h.attempt]
    exact ⟨forall_mem_append.mpr ⟨h.levels, by simp⟩, h.attempt⟩
  undo_act level resource registry target h _ hhigh := by
    simp [trackedPaths, undo_entries, track,
      h.attempt, hhigh]
  undo_above level registry target h hlt := by
    have hkept : registry.entries.filter (fun entry => entry.nestLevel < target) =
        registry.entries := by
      rw [filter_eq_self]
      intro entry hentry
      have hle := h.levels entry hentry
      rw [decide_eq_true_iff]
      omega
    rw [trackedPaths, undo_entries, hkept]
    rfl
  start_inv level registry h := ⟨fun entry hentry => (h.levels entry hentry).trans
    (Nat.le_succ level), h.attempt⟩
  undo_inv level registry h := by
    refine ⟨fun entry hentry => ?_, h.attempt⟩
    rw [undo_entries, mem_filter, decide_eq_true_iff] at hentry
    omega
  undo_undo registry target level hle := by
    simp only [trackedPaths, undo_entries, filter_filter]
    congr 2
    funext entry
    by_cases htarget : entry.nestLevel < target
    · have hlevel : entry.nestLevel < level := by omega
      simp [htarget, hlevel]
    · simp [htarget]
  promote_view _ registry := trackedPaths_promote registry _
  promote_inv level registry _ h := by
    refine ⟨fun entry hentry => ?_, h.attempt⟩
    obtain ⟨old, -, rfl⟩ := mem_map.mp hentry
    exact promoteLevel_le (level + 1) old.nestLevel
  undo_promote level registry target _ _ hlt := by
    have hsame (entry : TrackedResource StorageResource) :
        (promoteEntry level entry).nestLevel < target ↔
          entry.nestLevel < target := by
      rw [← not_le, ← not_le]
      exact not_congr (le_promoteLevel_iff hlt)
    simp only [trackedPaths, undo_entries,
      promoteSubtransactionResources, filter_map, map_map,
      Function.comp_def, hsame]
    rfl

end LagoDB.StorageResources
