import LagoDB.CommitPlan

/-!
# Canceled files of a commit

A file that the transaction created and that no delta of its commit references is to be
deleted after the commit. The plan collects such files in logs with a TRUNCATE only.
-/
namespace LagoDB.ActionLog

open ExceptLoop List TxTableAction

variable {T : Provider}

/-- The file was created in an epoch before the last TRUNCATE, or created and removed again
inside an epoch that survives. -/
def Leftover (path : String) : List (TxTableAction T) → Prop
  | [] => False
  | .data epoch :: rest =>
    (if rest.any isTruncate then
      ∃ batch ∈ epoch.batches, path ∈ T.createdFilePaths batch.delta
    else ∃ delta, epoch.buildDelta = .ok delta ∧ path ∈ T.canceledCreatedFilePaths delta) ∨
      Leftover path rest
  | _ :: rest => Leftover path rest

variable {cs : List (TxTableAction T)} {i : ℕ} {path : String} {state s f : Planning T}

lemma leftover_of_no_truncate (h : cs.any isTruncate = false) :
    Leftover path cs ↔ ∃ e d, .data e ∈ cs ∧ e.buildDelta = .ok d ∧
      path ∈ T.canceledCreatedFilePaths d := by
  induction cs with
  | nil => simp [Leftover]
  | cons a r ih =>
    obtain ⟨-, hr⟩ := Bool.or_eq_false_iff.mp h
    cases a with
    | data e => simp [Leftover, hr, ih hr, or_and_right, exists_or]
    | _ => simp [Leftover, ih hr]

lemma planEpoch_paths {l : Option ℕ} {e : TxDataEpoch T} (h : planEpoch l i e s = .ok f) :
    ∃ c, canceledPaths l i e = .ok c ∧ f.paths = s.paths ++ c := by
  obtain ⟨c, hc, hf⟩ := bind_eq_ok h
  refine ⟨c, hc, ?_⟩
  split_ifs at hf
  · cases hf
    rfl
  · cases hf
    rfl

lemma planActions_no_paths (h : planActions none i cs s = .ok f) : f.paths = s.paths := by
  induction cs generalizing i s with
  | nil =>
    cases h
    rfl
  | cons a r ih =>
    cases a with
    | schema | properties | truncate =>
      have hr := ih h
      exact hr
    | data e =>
      obtain ⟨n, hn, hr⟩ := bind_eq_ok h
      obtain ⟨c, hc, hp⟩ := planEpoch_paths hn
      cases hc
      rw [ih hr, hp, append_nil]
    | exclusive | drop => cases h

lemma planActions_paths (laws : CreatedLaws T) {l : ℕ} (hv : ValidEpochs cs)
    (hs : SeenFrom (some l) i cs) (h : planActions (some l) i cs s = .ok f) :
    path ∈ f.paths ↔ path ∈ s.paths ∨ Leftover path cs := by
  induction cs generalizing i s with
  | nil =>
    cases h
    simp [Leftover]
  | cons a r ih =>
    have ih := fun n => @ih (i + 1) n hv.tail hs.tail
    cases a with
    | schema | properties | truncate =>
      have hr := ih _ h
      exact hr
    | data e =>
      obtain ⟨n, hn, hr⟩ := bind_eq_ok h
      obtain ⟨c, hc, hp⟩ := planEpoch_paths hn
      obtain ⟨d, hd, hc⟩ := bind_eq_ok hc
      cases hc
      rw [(hv e mem_cons_self).delta_fst] at hd
      have hb := hs.before_iff
      rw [ih n hr, hp, mem_append, or_assoc, Leftover, ← hb]
      by_cases hl : i < l
      · simp [hl, created_buildDelta laws hd]
      · simp [hl, hd]
    | exclusive | drop => cases h

/-- A plan lists exactly the files its commit leaves behind if and only if the log has a
TRUNCATE or no epoch removes a file it created. -/
theorem commitPlan_lists_leftovers_iff (laws : CreatedLaws T) (events : List (LogEvent T))
    (hplain : (runLog events).actions.any isWithdrawal = false)
    {plan : TxTableCommitPlan T} (h : (runLog events).commitPlan = .ok plan) :
    (∀ path, path ∈ plan.canceledCreatedPaths ↔ Leftover path (runLog events).actions) ↔
      (runLog events).actions.any isTruncate = true ∨
        ∀ epoch delta, .data epoch ∈ (runLog events).actions → epoch.buildDelta = .ok delta →
          T.canceledCreatedFilePaths delta = [] := by
  have hv := (runLog_valid events).epochs
  generalize runLog events = log at hplain h hv ⊢
  rw [commitPlan_ordinary hplain] at h
  obtain ⟨state, hs, hpl⟩ := bind_eq_ok h
  cases hpl
  have hse := seenFrom_start log.actions
  simp only [mem_mergeSort, mem_dedup, ← lastTruncate_isSome 0]
  cases hl : lastTruncate 0 log.actions with
  | some last =>
    rw [hl] at hse hs
    refine iff_of_true (fun path => ?_) (.inl rfl)
    have hp : path ∈ state.paths ↔ _ := planActions_paths laws hv hse hs
    simpa using hp
  | none =>
    have hno : log.actions.any isTruncate = false := by
      rw [← lastTruncate_isSome 0, hl, Option.isSome_none]
    rw [hl] at hs
    have hp := planActions_no_paths hs
    simp only [hp, leftover_of_no_truncate hno, eq_nil_iff_forall_not_mem]
    constructor
    · intro hn
      exact .inr fun epoch delta hm hd path hpa =>
        not_mem_nil ((hn path).mpr ⟨epoch, delta, hm, hd, hpa⟩)
    · rintro (hso | hn) path
      · cases hso
      · refine iff_of_false not_mem_nil ?_
        rintro ⟨epoch, delta, hm, hd, hpa⟩
        exact hn epoch delta hm hd path hpa

/-- Deltas over file names: the files created and the files removed. -/
def replacedFiles : Provider where
  Delta := List String × List String
  Validation := Unit
  SchemaUpdate := String
  PropertyUpdate := String
  Exclusive := Unit
  Guard := String
  newDelta := ([], [])
  appendDelta a b := .ok (a.1 ++ b.1, a.2 ++ b.2)
  truncateTable _ := .ok ([], [])
  deltaIsEmpty delta := delta.1.isEmpty && delta.2.isEmpty
  createdFilePaths delta := delta.1
  canceledCreatedFilePaths delta := delta.1.filter delta.2.contains
  schemaIsEmpty update := update.isEmpty
  conflictError _ := .invariantViolated "conflict"
  notExclusiveInvariant := "not exclusive"
  misplacedInvariant := "misplaced"

lemma replacedFiles_laws : CreatedLaws replacedFiles where
  new := rfl
  append := by
    rintro a b c hc path
    cases hc
    exact mem_append

/-- Two commands delete rows of one data file: the second replaces the delete file of the
first. -/
def deletedTwice : List (LogEvent replacedFiles) :=
  [.recordBatch ⟨1, (["delete-1"], []), none⟩,
    .recordBatch ⟨2, (["delete-2"], ["delete-1"]), none⟩]

theorem truncated_lists_leftovers :
    ∃ plan, (runLog (.stageTruncate "v1" 0 :: deletedTwice)).commitPlan = .ok plan ∧
      ∀ path, path ∈ plan.canceledCreatedPaths ↔
        Leftover path (runLog (.stageTruncate "v1" 0 :: deletedTwice)).actions := by
  have hp : ∃ plan, (runLog (.stageTruncate "v1" 0 :: deletedTwice)).commitPlan = .ok plan :=
    ⟨_, rfl⟩
  obtain ⟨plan, hp⟩ := hp
  exact ⟨plan, hp, (commitPlan_lists_leftovers_iff replacedFiles_laws _ rfl hp).mpr (.inl rfl)⟩

theorem deletedTwice_leaves_file :
    ∃ plan, (runLog deletedTwice).commitPlan = .ok plan ∧ "delete-1" ∉ plan.canceledCreatedPaths ∧
      Leftover "delete-1" (runLog deletedTwice).actions := by
  refine ⟨_, rfl, ?_, .inl ⟨_, rfl, by decide⟩⟩
  rw [mem_mergeSort]
  exact not_mem_nil

end LagoDB.ActionLog
