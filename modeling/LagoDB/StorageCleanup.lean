import LagoDB.ExceptLoop
import LagoDB.StorageLifecycle

/-!
# Every storage resource follows its lifecycle

A resource is followed by its number. It sits in one of the collections of the
registry until it is kept or cleaned, and what happens to it depends on that place
alone, whatever else the transaction creates.
-/
namespace LagoDB.StorageLifecycle

open ExceptLoop List StorageResources MetadataResourceRegistry TrackedResource

/-! ## Where a number is -/

def occurrences (number : ℕ) (resources : List Numbered) : ℕ :=
  (resources.map Numbered.number).count number

/-- The levels under which a number is with the transaction. -/
def entryLevels (number : ℕ) (entries : List (TrackedResource Numbered)) : List ℕ :=
  (entries.filter fun entry => entry.resource.number == number).map nestLevel

/-- The levels and the occurrences in the collections of a registry. -/
structure Shape where
  levels : List ℕ
  attempt : ℕ
  promoted : ℕ
  cleanupRequired : ℕ
  deriving DecidableEq

def shape (number : ℕ) (registry : Registry) : Shape where
  levels := entryLevels number registry.entries
  attempt := occurrences number (attemptResources registry.metadata)
  promoted := occurrences number registry.metadata.promoted
  cleanupRequired := occurrences number registry.metadata.cleanupRequired

def Place.shape : Option Place → Shape
  | none => ⟨[], 0, 0, 0⟩
  | some (.entry level) => ⟨[level], 0, 0, 0⟩
  | some (.attempt _) => ⟨[], 1, 0, 0⟩
  | some .promoted => ⟨[], 0, 1, 0⟩
  | some .cleanupRequired => ⟨[], 0, 0, 1⟩

/-! ### Occurrences -/

attribute [local simp] occurrences entryLevels

section Occurrences

variable {number : ℕ} {resources others : List Numbered} {entries : List (TrackedResource Numbered)}

@[simp] lemma occurrences_append : occurrences number (resources ++ others) =
      occurrences number resources + occurrences number others := by
  simp

@[simp] lemma occurrences_reverse :
    occurrences number resources.reverse = occurrences number resources := by
  simp

lemma occurrences_entries :
    occurrences number (entries.map resource) = (entryLevels number entries).length := by
  induction entries with
  | nil => rfl
  | cons e r ih =>
    by_cases hn : e.resource.number = number <;>
      simp_all

variable (answers : Removal → Bool)

lemma failed_eq : resources.filterMap (Numbered.onAbort answers) =
      resources.filter fun tracked => !tracked.resource.isCleaned answers := by
  rw [← filterMap_eq_filter]
  congr 1
  funext tracked
  cases hc : tracked.resource.isCleaned answers <;>
    simp [Numbered.onAbort, Option.guard, hc]

/-- A number held once is kept exactly when its own cleanup failed. -/
lemma occurrences_failed (h : occurrences number resources ≤ 1) :
    occurrences number (resources.filterMap (Numbered.onAbort answers)) =
      if resources.all fun tracked =>
          tracked.number != number || tracked.resource.isCleaned answers then 0
      else occurrences number resources := by
  rw [failed_eq]
  have hle : occurrences number (resources.filter fun tracked =>
      !tracked.resource.isCleaned answers) ≤ occurrences number resources :=
    (filter_sublist.map Numbered.number).count_le number
  have hz : occurrences number (resources.filter fun tracked =>
      !tracked.resource.isCleaned answers) = 0 ↔ resources.all (fun tracked =>
        tracked.number != number || tracked.resource.isCleaned answers) = true := by
    rw [occurrences, count_eq_zero]
    simp only [mem_map, mem_filter, all_eq_true]
    grind
  split_ifs with hc
  · exact hz.mpr hc
  · have hn := mt hz.mp hc
    omega

end Occurrences

/-! ### What was done -/

def Effect.resource : Effect → Numbered
  | .committed resource | .aborted resource => resource

def Effect.ending : Effect → Ending
  | .committed _ => .kept
  | .aborted _ => .cleaned

def endings (number : ℕ) (log : List Effect) : List Ending :=
  (log.filter fun effect => effect.resource.number == number).map Effect.ending

section Endings

variable {number : ℕ}

lemma endings_append (log said : List Effect) :
    endings number (log ++ said) = endings number log ++ endings number said := by
  simp [endings]

lemma endings_map {e : Numbered → Effect} {ending : Ending} (hr : ∀ r, (e r).resource = r)
    (he : ∀ r, (e r).ending = ending) (resources : List Numbered) :
    endings number (resources.map e) = replicate (occurrences number resources) ending := by
  induction resources with
  | nil => rfl
  | cons r rest ih =>
    by_cases hn : r.number = number <;>
      simp_all [endings, replicate_succ]

lemma endings_aborted (resources : List Numbered) : endings number (resources.map .aborted) =
      replicate (occurrences number resources) .cleaned := by
  apply endings_map <;> exact fun _ => rfl

lemma endings_committed (resources : List Numbered) :
    endings number (resources.map .committed) = replicate (occurrences number resources) .kept := by
  apply endings_map <;> exact fun _ => rfl

end Endings

/-! ## Uploads -/

lemma changeFirst_map {α β : Type} {c : α → Option (Except String α)} {key : α → β}
    (hk : ∀ a changed, c a = some (.ok changed) → key changed = key a)
    {xs ys : List α} (h : changeFirst c xs = some (.ok ys)) : ys.map key = xs.map key := by
  induction xs generalizing ys with
  | nil => cases h
  | cons a rest ih =>
    rw [changeFirst] at h
    cases hc : c a with
    | some r =>
      rw [hc] at h
      cases r with
      | error error => cases h
      | ok changed =>
        cases h
        simp [hk a changed hc]
    | none =>
      rw [hc] at h
      obtain ⟨r, hre, hr⟩ := Option.map_eq_some_iff.mp h
      cases r with
      | error error => cases hr
      | ok changed =>
        cases hr
        simp [ih hre]

lemma Numbered.number_markUploaded {l : String} (t c : Numbered)
    (h : t.markUploaded l = some (.ok c)) : c.number = t.number := by
  obtain ⟨r, -, hr⟩ := Option.map_eq_some_iff.mp h
  cases r with
  | error error => cases hr
  | ok re =>
    cases hr
    rfl

def trackedKey (entry : TrackedResource Numbered) : ℕ × ℕ :=
  (entry.resource.number, entry.nestLevel)

lemma trackedKey_markUploaded {l : String} (e c : TrackedResource Numbered)
    (h : markTrackedUploaded l e = some (.ok c)) : trackedKey c = trackedKey e := by
  obtain ⟨re, hm, hr⟩ := Option.map_eq_some_iff.mp h
  cases re with
  | error error => cases hr
  | ok r =>
    cases hr
    simp [trackedKey, Numbered.number_markUploaded e.resource r hm]

lemma entryLevels_eq (number : ℕ) (entries : List (TrackedResource Numbered)) :
    entryLevels number entries =
      ((entries.map trackedKey).filter fun key => key.1 == number).map Prod.snd := by
  simp [filter_map, trackedKey, Function.comp_def]

attribute [local simp] attemptResources shape

section Registry

variable {number : ℕ} {registry marked : Registry}

lemma shape_markEntryUploaded {l : String} (h : markEntryUploaded registry l = .ok marked) :
    shape number marked = shape number registry ∧
      marked.metadata.activeAttempt.map (·.id) = registry.metadata.activeAttempt.map (·.id) := by
  unfold markEntryUploaded at h
  split at h
  case h_2 => cases h
  case h_1 changed hc =>
    obtain ⟨entries, rfl, rfl⟩ := map_eq_ok h
    refine ⟨?_, rfl⟩
    simp only [shape, entryLevels_eq, changeFirst_map trackedKey_markUploaded hc]

lemma shape_markObjectFileUploaded {l : String}
    (h : markObjectFileUploaded registry l = .ok marked) :
    shape number marked = shape number registry ∧
      marked.metadata.activeAttempt.map (·.id) = registry.metadata.activeAttempt.map (·.id) := by
  unfold markObjectFileUploaded at h
  cases ha : registry.metadata.activeAttempt with
  | none =>
    rw [ha] at h
    rw [← ha]
    exact shape_markEntryUploaded h
  | some a =>
    rw [ha] at h
    dsimp only at h
    split at h
    case h_2 =>
      rw [← ha]
      exact shape_markEntryUploaded h
    case h_1 changed hc =>
      obtain ⟨resources, rfl, rfl⟩ := map_eq_ok h
      refine ⟨?_, rfl⟩
      simp [ha, changeFirst_map Numbered.number_markUploaded hc]

/-! ## The other operations -/

lemma shape_track (level : ℕ) (r : Numbered) :
    shape number (registry.track level r) = if r.number = number then
        match registry.metadata.activeAttempt with
        | some _ => { shape number registry with attempt := (shape number registry).attempt + 1 }
        | none => { shape number registry with levels := (shape number registry).levels ++ [level] }
      else shape number registry := by
  unfold StorageResourceRegistry.track
  cases ha : registry.metadata.activeAttempt <;>
    by_cases hn : r.number = number <;>
      simp [ha, hn, track]

section

variable (registry) (number) (level : ℕ)

lemma shape_promoteSubtransactionResources :
    shape number (registry.promoteSubtransactionResources level) = { shape number registry with
        levels := (shape number registry).levels.map fun l =>
          if level ≤ l then level - 1 else l } := by
  simp only [shape, StorageResourceRegistry.promoteSubtransactionResources, entryLevels,
    Shape.mk.injEq, and_self, and_true]
  induction registry.entries with
  | nil => rfl
  | cons e r ih =>
    by_cases hn : e.resource.number = number <;>
      by_cases hl : level ≤ e.nestLevel <;>
        simpa [filter_cons, hn, hl, StorageResourceRegistry.promoteEntry,
          Savepoint.promoteLevel] using ih

lemma shape_takeAborted :
    shape number (registry.takeAbortedSubtransactionResources level).2 =
      { shape number registry with
        levels := (shape number registry).levels.filter fun l => l < level } := by
  simp only [shape, StorageResourceRegistry.takeAbortedSubtransactionResources, entryLevels,
    filter_map, Function.comp_def, Shape.mk.injEq, and_self, and_true]
  rw [filter_comm]

lemma occurrences_takeAborted :
    occurrences number ((registry.takeAbortedSubtransactionResources level).1.map resource) =
      ((shape number registry).levels.filter fun l => level ≤ l).length := by
  rw [occurrences_entries]
  simp only [shape, StorageResourceRegistry.takeAbortedSubtransactionResources, entryLevels,
    filter_map, Function.comp_def, length_map]
  rw [filter_comm]

end

variable {m : MetadataResourceRegistry Numbered} {id : ℕ}

lemma promoteAttempt_other (h : ∀ a, m.activeAttempt = some a → a.id ≠ id) :
    m.promoteAttempt id =
      (.error (.invariantViolated "metadata resource attempt is not active"), m) := by
  simp [promoteAttempt, takeAttempt_other h]

lemma discardAttempt_other (answers : Removal → Bool)
    (h : ∀ a, m.activeAttempt = some a → a.id ≠ id) :
    m.discardAttempt (Numbered.onAbort answers) id =
      (.error (.invariantViolated "metadata resource attempt is not active"), m) := by
  simp [discardAttempt, takeAttempt_other h]

variable (registry) (number)

lemma occurrences_drainTopLevel :
    occurrences number registry.metadata.drainTopLevel.1 = (shape number registry).promoted ∧
      occurrences number registry.metadata.drainTopLevel.2 =
        (shape number registry).cleanupRequired + (shape number registry).attempt := by
  cases ha : registry.metadata.activeAttempt <;>
    simp [drainTopLevel, ha]

end Registry

/-! ## Steps -/

/-- The registry holds a number in a place, or nowhere. -/
structure Session.Holds (s : Session) (number : ℕ) (place : Option Place) : Prop where
  shape : shape number s.registry = Place.shape place
  bounded : ∀ level, place = some (.entry level) → level ≤ s.nestLevel
  active : ∀ id, place = some (.attempt id) →
    s.registry.metadata.activeAttempt.map (·.id) = some id

open Session

def followed (cleaned : Bool) (level : ℕ) (operation : Operation) :
    Option Place → Option Place × List Ending
  | none => (none, [])
  | some place => place.follow cleaned level operation

/-- A step did to a number what its place says. -/
structure Follows (number : ℕ) (place : Option Place) (operation : Operation)
    (s t : Session) : Prop where
  holds : t.Holds number (followed (s.cleans number operation) s.nestLevel operation place).1
  endings : endings number t.log = endings number s.log ++
    (followed (s.cleans number operation) s.nestLevel operation place).2

attribute [local simp] Place.shape followed Place.follow

namespace Session.Holds

variable {s : Session} {number : ℕ} {place : Option Place} {operation : Operation}
  {said : List Ending}

lemma moved {t : Session} {a : Option Place}
    (hf : followed (s.cleans number operation) s.nestLevel operation place = (a, said))
    (hh : t.Holds number a) (hl : endings number t.log = endings number s.log ++ said) :
    Follows number place operation s t := by
  constructor
  · rw [hf]
    exact hh
  · rw [hf, hl]

/-- Operations that leave every place as it is. -/
lemma followed_eq {c : Bool}
    (h : ∀ place : Place, place.follow c s.nestLevel operation = (some place, [])) :
    followed c s.nestLevel operation place = (place, []) := by
  cases place with
  | none => rfl
  | some place => exact h place

section

variable (h : s.Holds number place)

include h

/-- A step that neither moves the number nor says anything about it. -/
lemma unmoved {t : Session}
    (hp : followed (s.cleans number operation) s.nestLevel operation place = (place, []))
    (hge : s.nestLevel ≤ t.nestLevel) (hl : t.log = s.log)
    (hs : StorageLifecycle.shape number t.registry = StorageLifecycle.shape number s.registry)
    (hac : ∀ id, place = some (.attempt id) →
      t.registry.metadata.activeAttempt.map (·.id) = s.registry.metadata.activeAttempt.map (·.id)) :
    Follows number place operation s t := by
  refine moved hp ⟨hs.trans h.shape, fun level he => ?_, fun id ha => ?_⟩ (by rw [hl, append_nil])
  · exact (h.bounded level he).trans hge
  · exact (hac id ha).trans (h.active id ha)

lemma track (r : StorageResource) (hn : number ≠ s.next) :
    Follows number place (.track r) s (s.track r) := by
  refine h.unmoved (followed_eq fun place => ?_) le_rfl rfl ?_ ?_
  · cases place <;> rfl
  · change StorageLifecycle.shape number (s.registry.track _ _) = _
    rw [shape_track, if_neg (Ne.symm hn)]
  · intro id hat
    change (s.registry.track _ _).metadata.activeAttempt.map _ = _
    unfold StorageResourceRegistry.track
    cases ha : s.registry.metadata.activeAttempt <;> simp [ha, MetadataResourceRegistry.track]

lemma markUploaded (l : String) :
    Follows number place (.markUploaded l) s (s.markObjectFileUploaded l).2 := by
  have hp : followed true s.nestLevel (.markUploaded l) place = (place, []) :=
    followed_eq fun place => by cases place <;> rfl
  unfold markObjectFileUploaded
  split
  case h_1 => exact h.unmoved hp le_rfl rfl rfl (fun _ _ => rfl)
  case h_2 registry hc =>
    have hr : s.registry = registry := by simp [Session.registry, hc]
    split
    case h_2 => exact h.unmoved hp le_rfl rfl rfl (fun _ _ => rfl)
    case h_1 marked hm =>
      obtain ⟨hs, ha⟩ : StorageLifecycle.shape number marked = _ ∧ _ :=
        shape_markObjectFileUploaded hm
      refine h.unmoved hp le_rfl rfl ?_ (fun _ _ => ?_)
      · rw [hr]
        exact hs
      · rw [hr]
        exact ha

lemma begin : Follows number place .begin s s.beginAttempt.2 := by
  have hb : s.beginAttempt.2.registry =
      { s.registry with metadata := (s.registry.metadata.beginAttempt s.nestLevel).2 } := rfl
  refine h.unmoved (followed_eq fun place => ?_) le_rfl rfl ?_ fun id ha => ?_
  · cases place <;> rfl
  · rw [hb, MetadataResourceRegistry.beginAttempt]
    split_ifs with hl hn hr
    · rfl
    · rfl
    · rfl
    · simp only [Option.not_isSome_iff_eq_none] at hn
      simp [hn]
  · -- a running attempt makes the call fail
    obtain ⟨a, hs, -⟩ := Option.map_eq_some_iff.mp (h.active id ha)
    have hr : (s.registry.metadata.beginAttempt s.nestLevel).2 = s.registry.metadata := by
      rw [MetadataResourceRegistry.beginAttempt]
      simp only [hs, Option.isSome_some, if_true]
      split_ifs <;> rfl
    rw [hb, hr]

lemma start : Follows number place .start s { s with nestLevel := s.nestLevel + 1 } := by
  refine h.unmoved (followed_eq fun place => ?_) (Nat.le_succ _) rfl rfl (fun _ _ => rfl)
  cases place <;> rfl

lemma other {id : ℕ} {c : Bool} (answers : Removal → Bool)
    (ho : ∀ attempt, s.registry.metadata.activeAttempt = some attempt → attempt.id ≠ id) :
    followed c s.nestLevel (.promote id) place = (place, []) ∧
      followed c s.nestLevel (.discard id answers) place = (place, []) := by
  cases place with
  | none => exact ⟨rfl, rfl⟩
  | some place =>
    cases place with
    | entry level | promoted | cleanupRequired => exact ⟨rfl, rfl⟩
    | attempt a =>
      obtain ⟨attempt, ha, rfl⟩ := Option.map_eq_some_iff.mp (h.active a rfl)
      simp [ho attempt ha]

lemma activeId {a : MetadataAttemptState Numbered} (ha : s.registry.metadata.activeAttempt = some a)
    {id : ℕ} (hp : place = some (.attempt id)) : a.id = id := by
  have hi := h.active id hp
  rw [ha] at hi
  exact Option.some.inj hi

lemma promote (id : ℕ) : Follows number place (.promote id) s (s.promoteAttempt id).2 := by
  have hr : (s.promoteAttempt id).2.registry =
      { s.registry with metadata := (s.registry.metadata.promoteAttempt id).2 } := rfl
  by_cases ho : ∀ attempt, s.registry.metadata.activeAttempt = some attempt → attempt.id ≠ id
  · rw [promoteAttempt_other ho] at hr
    refine h.unmoved (h.other (fun _ => true) ho).1 le_rfl rfl ?_ (fun _ _ => ?_)
    · rw [hr]
    · rw [hr]
  · simp only [not_forall, not_not] at ho
    obtain ⟨attempt, ha, rfl⟩ := ho
    have hs : StorageLifecycle.shape number (s.promoteAttempt attempt.id).2.registry =
        { Place.shape place with
          attempt := 0
          promoted := (Place.shape place).promoted + (Place.shape place).attempt } := by
      rw [hr, MetadataResourceRegistry.promoteAttempt, takeAttempt_active ha, ← h.shape]
      simp [ha]
    have hl : endings number (s.promoteAttempt attempt.id).2.log = endings number s.log ++ [] :=
      (append_nil _).symm
    cases place with
    | none => exact moved rfl ⟨hs, by simp, by simp⟩ hl
    | some place =>
      cases place with
      | entry level => exact moved rfl ⟨hs, h.bounded, by simp⟩ hl
      | attempt a =>
        obtain rfl := h.activeId ha rfl
        exact moved (if_pos rfl) ⟨hs, by simp, by simp⟩ hl
      | promoted | cleanupRequired => exact moved rfl ⟨hs, by simp, by simp⟩ hl

/-- A discard cleans what the attempt holds and keeps what its own removals failed on. -/
lemma discard (id : ℕ) (answers : Removal → Bool) :
    Follows number place (.discard id answers) s (s.discardAttempt id answers).2 := by
  by_cases ho : ∀ attempt, s.registry.metadata.activeAttempt = some attempt → attempt.id ≠ id
  · have hsame : (s.discardAttempt id answers).2 = { s with current := some s.registry } := by
      simp [discardAttempt, discardAttempt_other answers ho]
    rw [hsame]
    exact h.unmoved (h.other answers ho).2 le_rfl rfl rfl (fun _ _ => rfl)
  · simp only [not_forall, not_not] at ho
    obtain ⟨attempt, ha, rfl⟩ := ho
    have hheld : occurrences number attempt.resources = (Place.shape place).attempt := by
      rw [← h.shape]
      simp [ha]
    have honce : occurrences number attempt.resources.reverse ≤ 1 := by
      rw [occurrences_reverse, hheld]
      rcases place with _ | _ | _ | _ | _ <;> simp
    have hcleans : s.cleans number (.discard attempt.id answers) =
        attempt.resources.reverse.all fun tracked =>
          tracked.number != number || tracked.resource.isCleaned answers := by
      simp [cleans, ha]
    have hlog : endings number (s.discardAttempt attempt.id answers).2.log =
        endings number s.log ++ replicate (Place.shape place).attempt .cleaned := by
      rw [discardAttempt, MetadataResourceRegistry.discardAttempt, takeAttempt_active ha]
      rw [endings_append, endings_aborted, occurrences_reverse, hheld]
    have hl : (s.discardAttempt attempt.id answers).2.nestLevel = s.nestLevel := by
      rw [discardAttempt, MetadataResourceRegistry.discardAttempt, takeAttempt_active ha]
    have hs : StorageLifecycle.shape number (s.discardAttempt attempt.id answers).2.registry =
        { Place.shape place with
          attempt := 0
          cleanupRequired := (Place.shape place).cleanupRequired +
            if s.cleans number (.discard attempt.id answers) then 0
            else (Place.shape place).attempt } := by
      have hfailed := occurrences_failed answers honce
      rw [← hcleans, occurrences_reverse, hheld] at hfailed
      rw [discardAttempt, MetadataResourceRegistry.discardAttempt,
        takeAttempt_active ha, ← hfailed, ← h.shape]
      simp [registry]
    generalize hc : s.cleans number (.discard attempt.id answers) = cleaned at hs
    cases place with
    | none => exact moved rfl ⟨by simpa using hs, by simp, by simp⟩ hlog
    | some place =>
      cases place with
      | entry level => exact moved rfl ⟨by simpa using hs, hl ▸ h.bounded, by simp⟩ hlog
      | attempt a =>
        obtain rfl := h.activeId ha rfl
        have hf : followed (s.cleans number (.discard attempt.id answers)) s.nestLevel
            (.discard attempt.id answers) (some (.attempt attempt.id)) =
              (if cleaned then none else some .cleanupRequired, [.cleaned]) := by
          simp [hc]
        refine moved hf ⟨?_, by simp, by simp⟩ hlog
        cases cleaned <;> exact hs
      | promoted | cleanupRequired =>
        exact moved rfl ⟨by simpa using hs, by simp, by simp⟩ hlog

lemma release (hle : 2 ≤ s.nestLevel) : Follows number place .release s s.commitSub := by
  have hr : s.commitSub.registry = s.registry.promoteSubtransactionResources s.nestLevel := by
    cases hc : s.current with
    | none =>
      simp only [commitSub, registry, hc]
      rfl
    | some registry => simp [Session.commitSub, Session.registry, hc]
  have hs := shape_promoteSubtransactionResources number s.registry s.nestLevel
  rw [h.shape, ← hr] at hs
  have hl : endings number s.commitSub.log = endings number s.log ++ [] := (append_nil _).symm
  cases place with
  | none => exact moved rfl ⟨hs, by simp, by simp⟩ hl
  | some place =>
    cases place with
    | entry level =>
      have hb := h.bounded level rfl
      have ho : (if s.nestLevel ≤ level then s.nestLevel - 1 else level) =
          if level = s.nestLevel then s.nestLevel - 1 else level := by
        split_ifs <;> omega
      refine moved rfl ⟨?_, fun o he => ?_, by simp⟩ hl
      · simpa [ho] using hs
      · simp only [Option.some.injEq, Place.entry.injEq] at he
        change o ≤ s.nestLevel - 1
        split_ifs at he <;> omega
    | attempt a =>
      refine moved rfl ⟨hs, by simp, fun id ha => ?_⟩ hl
      rw [hr]
      exact h.active id ha
    | promoted | cleanupRequired => exact moved rfl ⟨hs, by simp, by simp⟩ hl

lemma abort : Follows number place .abort s s.abortSub := by
  have hr : s.abortSub.registry =
      (s.registry.takeAbortedSubtransactionResources s.nestLevel).2 := by
    cases hc : s.current with
    | none =>
      simp only [abortSub, registry, hc]
      rfl
    | some registry => simp [Session.abortSub, Session.registry, hc]
  have hs := shape_takeAborted number s.registry s.nestLevel
  rw [h.shape, ← hr] at hs
  have hl : endings number s.abortSub.log = endings number s.log ++ replicate
      ((Place.shape place).levels.filter fun level => s.nestLevel ≤ level).length .cleaned := by
    rw [← h.shape, ← occurrences_takeAborted, ← endings_aborted, ← endings_append, map_map]
    rfl
  cases place with
  | none => exact moved rfl ⟨hs, by simp, by simp⟩ hl
  | some place =>
    cases place with
    | entry level =>
      have hb := h.bounded level rfl
      by_cases ho : level = s.nestLevel
      · exact moved (if_pos ho) ⟨by simpa [ho] using hs, by simp, by simp⟩ (by simpa [ho] using hl)
      · have hi : ¬ s.nestLevel ≤ level := by omega
        have hk : level < s.nestLevel := by omega
        refine moved (if_neg ho) ⟨by simpa [hk] using hs, fun o he => ?_, by simp⟩
          (by simpa [hi] using hl)
        obtain rfl : level = o := by simpa using he
        change level ≤ s.nestLevel - 1
        omega
    | attempt a =>
      refine moved rfl ⟨hs, by simp, fun id ha => ?_⟩ hl
      rw [hr]
      exact h.active id ha
    | promoted | cleanupRequired => exact moved rfl ⟨hs, by simp, by simp⟩ hl

end

lemma ended {t : Session}
    (hf : followed (s.cleans number operation) s.nestLevel operation place = (none, said))
    (hc : t.current = none) (hl : endings number t.log = endings number s.log ++ said) :
    Follows number place operation s t := by
  refine moved hf ⟨?_, by simp, by simp⟩ hl
  simp [registry, hc, StorageResourceRegistry.new, new]

lemma commit (h : s.Holds number place) : Follows number place .commit s s.commit := by
  obtain ⟨hp, hc⟩ := occurrences_drainTopLevel number s.registry
  have hl : endings number s.commit.log = endings number s.log ++
      replicate ((Place.shape place).levels.length + (Place.shape place).promoted) .kept ++
      replicate ((Place.shape place).cleanupRequired + (Place.shape place).attempt) .cleaned := by
    rw [← h.shape, ← hc, ← hp]
    simp only [Session.commit, endings_append, endings_committed, endings_aborted,
      occurrences_append, occurrences_entries]
    rfl
  cases place with
  | none => exact ended rfl rfl (by simpa using hl)
  | some place => cases place <;> exact ended rfl rfl (by simpa using hl)

lemma rollback (h : s.Holds number place) : Follows number place .rollback s s.rollback := by
  obtain ⟨hp, hc⟩ := occurrences_drainTopLevel number s.registry
  have hl : endings number s.rollback.log = endings number s.log ++
      replicate ((Place.shape place).levels.length + (Place.shape place).promoted +
        ((Place.shape place).cleanupRequired + (Place.shape place).attempt)) .cleaned := by
    rw [← h.shape, ← hc, ← hp]
    simp only [Session.rollback, endings_append, endings_aborted, occurrences_append,
      occurrences_entries]
    rfl
  cases place with
  | none => exact ended rfl rfl (by simpa using hl)
  | some place => cases place <;> exact ended rfl rfl (by simpa using hl)

end Session.Holds

variable {operation : Operation} {s t : Session}

lemma Session.apply_of_step (h : s.step operation = some t) : s.apply operation = some t :=
  (Option.ite_none_left_eq_some.mp h).2

/-- Every operation, unless it is the one that gives the number out. -/
lemma Session.Holds.step {number : ℕ} {place : Option Place} (h : s.Holds number place)
    (hn : ∀ r, operation = .track r → number ≠ s.next)
    (hs : s.step operation = some t) : Follows number place operation s t := by
  replace hs := apply_of_step hs
  cases operation with
  | track r =>
    cases hs
    exact h.track r (hn r rfl)
  | markUploaded l =>
    cases hs
    exact h.markUploaded l
  | begin =>
    cases hs
    exact h.begin
  | promote id =>
    cases hs
    exact h.promote id
  | discard id answers =>
    cases hs
    exact h.discard id answers
  | start =>
    cases hs
    exact h.start
  | release =>
    obtain ⟨hl, hs⟩ := Option.ite_none_right_eq_some.mp hs
    cases hs
    exact h.release hl
  | abort =>
    obtain ⟨-, hs⟩ := Option.ite_none_right_eq_some.mp hs
    cases hs
    exact h.abort
  | commit =>
    obtain ⟨-, hs⟩ := Option.ite_none_right_eq_some.mp hs
    cases hs
    exact h.commit
  | rollback =>
    obtain ⟨-, hs⟩ := Option.ite_none_right_eq_some.mp hs
    cases hs
    exact h.rollback

def Operation.next (next : ℕ) : Operation → ℕ
  | .track _ => next + 1
  | _ => next

lemma Session.next_step (hs : s.step operation = some t) : t.next = operation.next s.next := by
  replace hs := apply_of_step hs
  cases operation with
  | track resource | begin | promote id | start =>
    cases hs
    rfl
  | markUploaded l =>
    cases hs
    unfold markObjectFileUploaded
    split
    · rfl
    · split <;> rfl
  | discard id answers =>
    cases hs
    unfold discardAttempt
    split <;> rfl
  | release | abort | commit | rollback =>
    obtain ⟨-, hs⟩ := Option.ite_none_right_eq_some.mp hs
    cases hs
    rfl

lemma Operation.next_le (operation : Operation) (next : ℕ) : next ≤ operation.next next := by
  cases operation <;> simp [Operation.next]

/-! ## Runs -/

lemma lifecycle_cons (number : ℕ) (place : Option Place) {rest : List Operation}
    (hs : s.step operation = some t) :
    lifecycle number place s (operation :: rest) =
      (followed (s.cleans number operation) s.nestLevel operation place).2 ++
        lifecycle number (followed (s.cleans number operation) s.nestLevel operation place).1
          t rest := by
  cases place with
  | none => simp [lifecycle]
  | some place => simp [lifecycle, hs]

namespace Session

variable {number : ℕ} {place : Option Place} {os : List Operation}

lemma run_cons {rest : List Operation} (h : s.run (operation :: rest) = some t) :
    ∃ next, s.step operation = some next ∧ next.run rest = some t :=
  Option.bind_eq_some_iff.mp h

lemma Holds.run (h : s.Holds number place) (hn : number < s.next) (hru : s.run os = some t) :
    endings number t.log = endings number s.log ++ lifecycle number place s os := by
  induction os generalizing s place with
  | nil =>
    cases hru
    cases place <;> simp [lifecycle]
  | cons operation r ih =>
    obtain ⟨n, hs, hr⟩ := run_cons hru
    have hf := h.step (fun _ _ => hn.ne) hs
    have hl : number < n.next := by
      rw [next_step hs]
      exact hn.trans_le (operation.next_le s.next)
    rw [ih hf.holds hl hr, hf.endings, lifecycle_cons number place hs, append_assoc]

/-- Numbers not given out yet are nowhere. -/
def Fresh (s : Session) : Prop :=
  ∀ number, s.next ≤ number → s.Holds number none ∧ endings number s.log = []

lemma Fresh.initial : Fresh .initial := by
  intro number _
  refine ⟨⟨?_, by simp, by simp⟩, rfl⟩
  simp [Session.registry, Session.initial, StorageResourceRegistry.new, new]

lemma Fresh.step (h : s.Fresh) (hs : s.step operation = some t) : t.Fresh := by
  intro number hn
  rw [next_step hs] at hn
  obtain ⟨hh, hq⟩ := h number ((operation.next_le s.next).trans hn)
  have hf := hh.step (fun r ht => by
    subst ht
    simp only [Operation.next] at hn
    omega) hs
  exact ⟨hf.holds, by rw [hf.endings, hq]; rfl⟩

lemma Fresh.run (h : s.Fresh) (hr : s.run os = some t) : t.Fresh :=
  foldlM_eq_some (I := fun _ s => s.Fresh) (fun _ _ _ _ _ hf hs => hf.step hs) [] h hr

/-! ## Guarantees -/

/-- Where the next resource goes. -/
def trackedAt (s : Session) : Place :=
  match s.registry.metadata.activeAttempt with
  | some attempt => .attempt attempt.id
  | none => .entry s.nestLevel

/-- A new resource is where it was tracked, and nothing was done with it. -/
lemma Fresh.track (h : s.Fresh) (r : StorageResource) :
    (s.track r).Holds s.next (some s.trackedAt) ∧ endings s.next (s.track r).log = [] := by
  obtain ⟨hh, hq⟩ := h s.next le_rfl
  have hs : StorageLifecycle.shape s.next (s.track r).registry = _ :=
    shape_track s.nestLevel ⟨s.next, r⟩
  rw [if_pos rfl, hh.shape] at hs
  refine ⟨?_, hq⟩
  unfold trackedAt
  cases ha : s.registry.metadata.activeAttempt with
  | none =>
    rw [ha] at hs
    refine ⟨hs, fun level he => ?_, by simp⟩
    obtain rfl : s.nestLevel = level := by simpa using he
    exact le_rfl
  | some a =>
    rw [ha] at hs
    refine ⟨hs, by simp, fun id hat => ?_⟩
    obtain rfl : a.id = id := by simpa using hat
    change (s.registry.track _ _).metadata.activeAttempt.map _ = _
    simp [StorageResourceRegistry.track, MetadataResourceRegistry.track, ha]

/-- A resource follows the lifecycle of the place it was tracked in over every run,
whatever else happens; a discard of its attempt keeps it for the end exactly when its own
removals fail there. A call with an id that is not the running attempt's fails and leaves
the registry alone. -/
theorem track_follows_lifecycle {before after : List Operation} {resource : StorageResource}
    (hbefore : initial.run before = some s) (hafter : s.run (.track resource :: after) = some t) :
    endings s.next t.log = lifecycle s.next (some s.trackedAt) (s.track resource) after ∧
    ∀ id, (∀ attempt, t.registry.metadata.activeAttempt = some attempt → attempt.id ≠ id) →
      t.promoteAttempt id = (.error (.invariantViolated "metadata resource attempt is not active"),
          { t with current := some t.registry }) ∧
      ∀ answers, t.discardAttempt id answers =
        (.error (.invariantViolated "metadata resource attempt is not active"),
          { t with current := some t.registry }) := by
  constructor
  · have hfr := Fresh.initial.run hbefore
    obtain ⟨next, hs, hr⟩ := run_cons hafter
    obtain rfl := Option.some.inj (apply_of_step hs)
    obtain ⟨hh, hq⟩ := hfr.track resource
    rw [hh.run (Nat.lt_succ_self _) hr, hq, nil_append]
  · intro id ho
    constructor
    · simp [promoteAttempt, promoteAttempt_other ho]
    · intro answers
      simp [discardAttempt, discardAttempt_other answers ho]

/-- An attempt that is rejected while its file cannot be unlinked, and one that is
promoted. -/
def materialized : List Operation :=
  [.track (.createdLocalFile "00001.manifest"),
    .discard 1 fun removal => removal == .unlinkFile "00001.manifest", .begin,
    .track (.createdLocalFile "00002.metadata.json"), .promote 2, .rollback]

/-- The file whose removal failed is cleaned twice, the others once. -/
theorem materialized_follows_lifecycle :
    ∃ s t, initial.run [.begin] = some s ∧
      s.run (.track (.createdLocalFile "00001.metadata.json") :: materialized) = some t ∧
      (endings s.next t.log = lifecycle s.next (some s.trackedAt)
          (s.track (.createdLocalFile "00001.metadata.json")) materialized ∧
        ∀ id, (∀ attempt, t.registry.metadata.activeAttempt = some attempt → attempt.id ≠ id) →
          t.promoteAttempt id =
            (.error (.invariantViolated "metadata resource attempt is not active"),
              { t with current := some t.registry }) ∧
          ∀ answers, t.discardAttempt id answers =
            (.error (.invariantViolated "metadata resource attempt is not active"),
              { t with current := some t.registry })) ∧
      endings 0 t.log = [.cleaned, .cleaned] ∧ endings 1 t.log = [.cleaned] ∧
      endings 2 t.log = [.cleaned] := by
  have hr : ∃ s t, initial.run [.begin] = some s ∧
      s.run (.track (.createdLocalFile "00001.metadata.json") :: materialized) = some t ∧
      endings 0 t.log = [.cleaned, .cleaned] ∧ endings 1 t.log = [.cleaned] ∧
      endings 2 t.log = [.cleaned] :=
    ⟨_, _, rfl, rfl, rfl, rfl, rfl⟩
  obtain ⟨s, t, hb, ha, hends⟩ := hr
  exact ⟨s, t, hb, ha, track_follows_lifecycle hb ha, hends⟩

/-- The file of a discarded attempt cannot be unlinked at the discard, so it is
cleaned again at the commit. -/
theorem discarded_cleaned_twice :
    ∃ t, initial.run [.begin, .track (.createdLocalFile "00001.metadata.json"),
        .discard 1 fun _ => false, .commit] = some t ∧
      t.log = [.aborted ⟨0, .createdLocalFile "00001.metadata.json"⟩,
        .aborted ⟨0, .createdLocalFile "00001.metadata.json"⟩] :=
  ⟨_, rfl, rfl⟩

end Session

end LagoDB.StorageLifecycle
