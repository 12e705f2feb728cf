import LagoDB.DeletionVectors

/-!
# What a deletion vector write takes over

The planned tasks of a data file give the position deletes it has. Once they are
merged, the vectors hold these deletes and the claimed rows and nothing else.
-/
namespace LagoDB.DeletionVectors

open RowClaims ExceptLoop List PlannedMutationTasks PlannedDataFile

variable {S : Type}

/-! ## Tasks of a data file -/

lemma lookup_pushIndex (path o : String) (t : ℕ) (b : List (String × List ℕ)) :
    (pushIndex path t b).lookup o = if o = path then some ((b.lookup path).getD [] ++ [t])
      else b.lookup o := by
  induction b with
  | nil =>
    rw [pushIndex]
    by_cases ho : o = path
    · simp [ho]
    · simp [ho, lookup_cons, beq_eq_false_iff_ne.mpr ho]
  | cons e r ih =>
    obtain ⟨f, i⟩ := e
    rw [pushIndex]
    by_cases hf : f = path
    · subst hf
      by_cases ho : o = f
      · simp [ho]
      · simp [ho, lookup_cons, beq_eq_false_iff_ne.mpr ho]
    · rw [if_neg hf, lookup_cons, ih]
      by_cases ho : o = f
      · have hp : o ≠ path := by rwa [ho]
        simp [ho, hf]
      · have hp : (path == f) = false := beq_eq_false_iff_ne.mpr (Ne.symm hf)
        simp [beq_eq_false_iff_ne.mpr ho, lookup_cons, hp]

lemma mem_tasksByPath (ts : List (FileScanTask S)) (path : String) (t : ℕ) :
    t ∈ (((new ts).tasksByPath).lookup path).getD [] ↔
      ∃ task, ts[t]? = some task ∧ task.dataFilePath = path := by
  rw [new]
  induction ts using List.reverseRecOn with
  | nil => simp
  | append_singleton ts task ih =>
    have hla : (ts ++ [task]).zipIdx = ts.zipIdx ++ [(task, ts.length)] := by simp [zipIdx_append]
    simp only [hla, foldl_append, foldl_cons, foldl_nil, lookup_pushIndex]
    have hs (i : ℕ) (f : FileScanTask S) : (ts ++ [task])[i]? = some f ↔
          ts[i]? = some f ∨ (i = ts.length ∧ task = f) := by
      rw [List.getElem?_append]
      split_ifs with hlt
      · simp [Nat.ne_of_lt hlt]
      · rw [List.getElem?_eq_none (not_lt.mp hlt)]
        rcases Nat.eq_or_lt_of_le (not_lt.mp hlt) with hleng | hl
        · simp [← hleng]
        · have hl' : [task].length ≤ i - ts.length := by
            simp only [length_singleton]
            omega
          simp [List.getElem?_eq_none hl', Nat.ne_of_gt hl]
    simp only [hs, or_and_right, exists_or]
    split_ifs with hp
    · subst hp
      rw [Option.getD_some, mem_append, ih, mem_singleton]
      refine or_congr_right ⟨fun hi => ⟨task, ⟨hi, rfl⟩, rfl⟩, ?_⟩
      rintro ⟨f, ⟨hi, -⟩, -⟩
      exact hi
    · rw [ih]
      refine (or_iff_left ?_).symm
      rintro ⟨f, ⟨-, rfl⟩, hf⟩
      exact hp hf.symm

lemma taskAt_eq_ok {ts : List (FileScanTask S)} {t : ℕ} {task : FileScanTask S} :
    (new ts).taskAt t = .ok task ↔ ts[t]? = some task := by
  rw [taskAt, new]
  cases ts[t]? with
  | none | some => simp

lemma mem_tasksForPath {ts f : List (FileScanTask S)} {path : String}
    (h : (new ts).tasksForPath path = .ok f) (task : FileScanTask S) :
    task ∈ f ↔ task ∈ ts ∧ task.dataFilePath = path := by
  have hi := mem_tasksByPath ts path
  rw [tasksForPath] at h
  split at h
  next => cases h
  next t hl =>
    rw [hl, Option.getD_some] at hi
    simp only [mapM_eq_ok h task, taskAt_eq_ok, hi]
    constructor
    · rintro ⟨i, ⟨f, hf, hp⟩, ht⟩
      obtain rfl := Option.some.inj (hf.symm.trans ht)
      exact ⟨mem_of_getElem? ht, hp⟩
    · rintro ⟨ht, hp⟩
      obtain ⟨i, hi⟩ := mem_iff_getElem?.mp ht
      exact ⟨i, ⟨task, hi, hp⟩, hi⟩

/-! ## Deletes of a data file -/

/-- A position delete that may hold rows of the data file. -/
def MergedFor (path : String) (deleteFile : FileScanTaskDeleteFile) : Prop :=
  deleteFile.isPositionDelete = true ∧
    ∀ referenced, deleteFile.referencedDataFilePath = some referenced → referenced = path

variable (d : PlannedDataFile S)

lemma mem_pushPositionDeleteFile (p l : FileScanTaskDeleteFile) :
    l ∈ (d.pushPositionDeleteFile p).positionDeleteFiles ↔ l ∈ d.positionDeleteFiles ∨ l = p := by
  rw [pushPositionDeleteFile]
  split_ifs with hm
  · refine (or_iff_left_of_imp ?_).symm
    rintro rfl
    exact hm
  · rw [mem_append, mem_singleton]

lemma target_mergeDeleteFile (m : FileScanTaskDeleteFile) :
    (d.mergeDeleteFile m).target = d.target := by
  have hp : (d.pushPositionDeleteFile m).target = d.target := by
    rw [pushPositionDeleteFile]
    split_ifs <;> rfl
  rw [mergeDeleteFile]
  split_ifs
  · split
    · split_ifs
      · exact hp
      · rfl
    · exact hp
  · rfl

lemma mem_mergeDeleteFile (m l : FileScanTaskDeleteFile) :
    l ∈ (d.mergeDeleteFile m).positionDeleteFiles ↔ l ∈ d.positionDeleteFiles ∨ (l = m ∧
      MergedFor d.target.filePath m) := by
  rw [mergeDeleteFile]
  by_cases hp : m.isPositionDelete = true
  · rw [if_pos hp]
    cases hr : m.referencedDataFilePath with
    | none => simp [mem_pushPositionDeleteFile, MergedFor, hp, hr]
    | some r =>
      by_cases ht : r = d.target.filePath
      · simp [mem_pushPositionDeleteFile, MergedFor, hp, hr, ht]
      · simp [MergedFor, hr, ht]
  · rw [if_neg hp]
    simp [MergedFor, hp]

lemma mergeDeleteFiles_spec (t : FileScanTask S) (d : PlannedDataFile S) :
    (d.mergeDeleteFiles t).target = d.target ∧
      ∀ deleteFile, deleteFile ∈ (d.mergeDeleteFiles t).positionDeleteFiles ↔
        deleteFile ∈ d.positionDeleteFiles ∨
          (deleteFile ∈ t.deletes ∧ MergedFor d.target.filePath deleteFile) := by
  rw [mergeDeleteFiles]
  generalize t.deletes = deletes
  induction deletes generalizing d with
  | nil => simp
  | cons f r ih =>
    rw [foldl_cons]
    obtain ⟨ht, hm⟩ := ih (d.mergeDeleteFile f)
    refine ⟨ht.trans (target_mergeDeleteFile d f), fun deleteFile => ?_⟩
    rw [hm, mem_mergeDeleteFile, target_mergeDeleteFile, mem_cons, or_and_right, or_assoc]
    refine or_congr_right (or_congr_left (and_congr_right ?_))
    rintro rfl
    exact Iff.rfl

section Tasks

variable [EmptyCollection S] [DecidableEq S] {path : String}

lemma mergeTask_eq_ok {d f' : PlannedDataFile S} {task : FileScanTask S}
    (h : d.mergeTask path task = .ok f') : f' = d.mergeDeleteFiles task := by
  obtain ⟨t, ht, h⟩ := bind_eq_ok h
  split_ifs at h
  exact (Except.ok.inj h).symm

lemma fromScanTasks_spec {ts : List (FileScanTask S)} {d : PlannedDataFile S}
    (h : fromScanTasks path ts = .ok d) :
    d.target.filePath = path ∧ ∀ deleteFile, deleteFile ∈ d.positionDeleteFiles ↔ (∃ task ∈ ts,
      deleteFile ∈ task.deletes) ∧ MergedFor path deleteFile := by
  cases ts with
  | nil => cases h
  | cons f r =>
    obtain ⟨t, ht, h⟩ := bind_eq_ok h
    by_cases hp : t.filePath ≠ path
    · rw [if_pos hp] at h
      cases h
    · rw [if_neg hp] at h
      rw [not_not] at hp
      have hf := mergeDeleteFiles_spec f ⟨t, []⟩
      have ha := foldlM_eq_ok (I := fun done (d : PlannedDataFile S) => d.target.filePath = path ∧
          ∀ deleteFile, deleteFile ∈ d.positionDeleteFiles ↔
            (∃ task ∈ done, deleteFile ∈ task.deletes) ∧ MergedFor path deleteFile)
        ?_ [f] ?_ h
      · simpa using ha
      · rintro task - done b a ⟨ht, hmem⟩ hme
        obtain ⟨hs, hm⟩ := mergeDeleteFiles_spec task b
        obtain rfl := mergeTask_eq_ok hme
        refine ⟨by rw [hs, ht], fun deleteFile => ?_⟩
        rw [hm, hmem, ht, ← or_and_right]
        simp [or_and_right, exists_or]
      · refine ⟨by rw [hf.1, hp], fun deleteFile => ?_⟩
        rw [hf.2]
        simp [hp]

end Tasks

/-! ## Delete files of a table -/

/-- What delete files mean: the rows of a data file they hold, and the data files they
are in scope of by partition and sequence number. A delete file with a referenced data
file holds rows of that file only. -/
structure DeleteSemantics where
  contents : DeleteFile → String → Finset ℕ
  inScope : DeleteFile → String → Bool
  /-- Whether readers skip the position delete files of a data file that has a vector. -/
  vectorsHide : Bool
  referenced : ∀ file path other, file.referencedDataFilePath = some other → path ≠ other →
    contents file path = ∅

namespace DeleteSemantics

variable (sem : DeleteSemantics)

def Applies (live : List DeleteFile) (file : DeleteFile) (path : String) : Prop :=
  sem.inScope file path = true ∧
    (sem.vectorsHide = true → file.isPositionDelete = true → file.isDeletionVector = false →
      ∀ vector ∈ live, vector.isDeletionVector = true → sem.inScope vector path = false)

/-- The rows of a data file that the table's delete files delete. -/
def deletedPositions (live : List DeleteFile) (path : String) : Set ℕ :=
  { position | ∃ file ∈ live, sem.Applies live file path ∧ position ∈ sem.contents file path }

end DeleteSemantics

/-- What iceberg-lite's writer does. A merge adds the rows of its target, a file that can
be removed applies to no other data file, and there is a vector for every data file
with rows and for none that was not given. -/
structure WriterContract {W : Type} (writer : DeletionVectorFileWriter S W)
    (sem : DeleteSemantics) (live : List DeleteFile) where
  held : W → String → Finset ℕ
  given : W → Set String
  new_held : ∀ path, held writer.new path = ∅
  new_given : given writer.new = ∅
  merge_held : ∀ target existing vectors canRemove vectors',
    writer.mergeExistingPositionDeleteFile target existing vectors = .ok (canRemove, vectors') →
      ∀ path, held vectors' path =
        if path = target.filePath then held vectors path ∪ sem.contents existing path
        else held vectors path
  merge_given : ∀ target existing vectors canRemove vectors',
    writer.mergeExistingPositionDeleteFile target existing vectors = .ok (canRemove, vectors') →
      given vectors' ⊆ insert target.filePath (given vectors)
  merge_canRemove : ∀ target (existing : FileScanTaskDeleteFile) vectors vectors',
    writer.mergeExistingPositionDeleteFile target existing.toDeleteFile vectors =
        .ok (true, vectors') →
      existing.canRemoveAfterDvRewrite = true →
        ∀ path, sem.Applies live existing.toDeleteFile path → path = target.filePath
  deleteAll_held : ∀ target positions vectors vectors',
    writer.deleteAll target positions vectors = .ok vectors' →
      ∀ path, held vectors' path =
        if path = target.filePath then held vectors path ∪ positions else held vectors path
  deleteAll_given : ∀ target positions vectors vectors',
    writer.deleteAll target positions vectors = .ok vectors' →
      given vectors' ⊆ insert target.filePath (given vectors)
  close_length : ∀ vectors files referenced, writer.close vectors = .ok (files, referenced) →
    files.length = referenced.length
  close_held : ∀ vectors files referenced, writer.close vectors = .ok (files, referenced) →
    ∀ path, (held vectors path).Nonempty → path ∈ referenced
  close_given : ∀ vectors files referenced, writer.close vectors = .ok (files, referenced) →
    ∀ path ∈ referenced, path ∈ given vectors
  close_files : ∀ vectors files referenced, writer.close vectors = .ok (files, referenced) →
    ∀ file path, (file, path) ∈ files.zip referenced →
      file.isDeletionVector = true ∧ sem.contents file path = held vectors path ∧
        ∀ other, sem.inScope file other = true ↔ other = path

/-! ## The loops of a write -/

section Loops

variable {W : Type} {w : DeletionVectorFileWriter S W} {sem : DeleteSemantics}
  {live : List DeleteFile} (contract c : WriterContract w sem live)

/-- The vectors and removed files after some delete files of the target were merged. -/
structure Merged (target : ReferencedDataFile S) (start : W × Finset DeleteFileIdentity)
    (done : List FileScanTaskDeleteFile) (state : W × Finset DeleteFileIdentity) : Prop where
  held : ∀ path position, position ∈ contract.held state.1 path ↔
    position ∈ contract.held start.1 path ∨
      (path = target.filePath ∧
        ∃ file ∈ done, position ∈ sem.contents file.toDeleteFile path)
  given : contract.given state.1 ⊆ insert target.filePath (contract.given start.1)
  removed : ∀ identity ∈ state.2, identity ∈ start.2 ∨
    ∃ file ∈ done, file.identity = identity ∧
      ∀ path, sem.Applies live file.toDeleteFile path → path = target.filePath

variable {t : ReferencedDataFile S}

lemma mergeExisting_step {start s s' : W × Finset DeleteFileIdentity}
    {done : List FileScanTaskDeleteFile} (h : Merged c t start done s) {e : FileScanTaskDeleteFile}
    (hm : mergeExisting w t s e = .ok s') : Merged c t start (done ++ [e]) s' := by
  obtain ⟨⟨r, v⟩, hv, hm⟩ := bind_eq_ok hm
  have hh := c.merge_held t e.toDeleteFile s.1 r v hv
  have hg := c.merge_given t e.toDeleteFile s.1 r v hv
  have hol {i : DeleteFileIdentity} (hi : i ∈ s.2) : i ∈ start.2 ∨ ∃ f ∈ done ++ [e],
      f.identity = i ∧ ∀ path, sem.Applies live f.toDeleteFile path → path = t.filePath := by
    refine (h.removed i hi).imp_right ?_
    rintro ⟨f, hf, hs⟩
    exact ⟨f, mem_append_left _ hf, hs⟩
  obtain ⟨hfs, hsn⟩ : s'.1 = v ∧ ∀ i ∈ s'.2, i ∈ s.2 ∨ (i = e.identity ∧
        ∀ path, sem.Applies live e.toDeleteFile path → path = t.filePath) := by
    dsimp only at hm
    split_ifs at hm with hr
    · cases hm
      rw [Bool.and_eq_true] at hr
      rw [hr.1] at hv
      refine ⟨rfl, fun i hi => ?_⟩
      rcases Finset.mem_insert.mp hi with hn | hi
      · exact .inr ⟨hn, c.merge_canRemove t e s.1 v hv hr.2⟩
      · exact .inl hi
    · cases hm
      exact ⟨rfl, fun i hi => .inl hi⟩
  refine ⟨fun path p => ?_, ?_, fun i hi => ?_⟩
  · rw [hfs, hh]
    split_ifs with hp
    · simp only [Finset.mem_union, h.held, hp, true_and, mem_append, mem_singleton,
        or_and_right, exists_or, exists_eq_left, or_assoc]
    · rw [h.held]
      simp [hp]
  · rw [hfs]
    exact hg.trans (Set.insert_subset (Set.mem_insert _ _) h.given)
  · rcases hsn i hi with hi | ⟨rfl, ho⟩
    · exact hol hi
    · exact .inr ⟨e, mem_append_right _ mem_cons_self, rfl, ho⟩

lemma mergeExisting_loop
    {start s : W × Finset DeleteFileIdentity} {fs : List FileScanTaskDeleteFile}
    (h : fs.foldlM (mergeExisting w t) start = .ok s) : Merged c t start fs s := by
  have hs : Merged c t start [] start := ⟨by simp, Set.subset_insert _ _, fun i hi => .inl hi⟩
  exact foldlM_eq_ok (I := Merged c t start) (fun e _ done s s' hst hm =>
      mergeExisting_step c hst hm) [] hs h

/-- A delete file that the tasks of the data file list and that may hold its rows. -/
def PlannedDelete (tasks : List (FileScanTask S)) (path : String)
    (file : FileScanTaskDeleteFile) : Prop :=
  (∃ task ∈ tasks, task.dataFilePath = path ∧ file ∈ task.deletes) ∧ MergedFor path file

variable (registry : RelationRowRegistry)

def Touched (deletes : List (IcebergFileId × OwnedRowPositions))
    (path : String) : Prop :=
  ∃ entry ∈ deletes, registry.filePath entry.1 = .ok path

def claimedPositions
    (deletes : List (IcebergFileId × OwnedRowPositions)) (path : String) : Set ℕ :=
  { position | ∃ entry ∈ deletes,
    registry.filePath entry.1 = .ok path ∧ position ∈ registry.rowsOf entry.2 }

/-- The vectors hold the claimed rows and the planned deletes of the files done so far. -/
structure Written (registry : RelationRowRegistry) (tasks : List (FileScanTask S))
    (done : List (IcebergFileId × OwnedRowPositions)) (state : W × RemovedByTarget) : Prop where
  held : ∀ path position, position ∈ contract.held state.1 path ↔
    position ∈ claimedPositions registry done path ∨
      (Touched registry done path ∧ ∃ file, PlannedDelete tasks path file ∧
        position ∈ sem.contents file.toDeleteFile path)
  given : ∀ path ∈ contract.given state.1, Touched registry done path
  removed : ∀ path, ∀ identity ∈ state.2 path, Touched registry done path ∧
    ∃ file, PlannedDelete tasks path file ∧ file.identity = identity ∧
      ∀ other, sem.Applies live file.toDeleteFile other → other = path

variable {g : RelationRowRegistry} {done : List (IcebergFileId × OwnedRowPositions)}
  {e : IcebergFileId × OwnedRowPositions}

lemma touched_append {path : String} :
    Touched g (done ++ [e]) path ↔ Touched g done path ∨ g.filePath e.1 = .ok path := by
  simp [Touched, or_and_right, exists_or]

variable [EmptyCollection S] [DecidableEq S] {ts : List (FileScanTask S)}

lemma writeFile_step {s s' : W × RemovedByTarget} (h : Written c g ts done s)
    (hw : writeFile w g (.new ts) s e = .ok s') : Written c g ts (done ++ [e]) s' := by
  obtain ⟨path, hp, hw⟩ := bind_eq_ok hw
  obtain ⟨f, hfo, hw⟩ := bind_eq_ok hw
  obtain ⟨l, hpl, hw⟩ := bind_eq_ok hw
  obtain ⟨⟨m, r⟩, hm, hw⟩ := bind_eq_ok hw
  obtain ⟨v, hv, hw⟩ := bind_eq_ok hw
  cases hw
  obtain ⟨ht, hfi⟩ := fromScanTasks_spec hpl
  have hl := mergeExisting_loop c hm
  have hh := c.deleteAll_held _ _ _ _ hv
  have hg := c.deleteAll_given _ _ _ _ hv
  have hla : Touched g (done ++ [e]) path := touched_append.mpr (.inr hp)
  have hd (file : FileScanTaskDeleteFile) :
      file ∈ l.positionDeleteFiles ↔ PlannedDelete ts path file := by
    rw [hfi, PlannedDelete]
    simp only [mem_tasksForPath hfo, and_assoc]
  have ho {o : String} (hne : o ≠ path) : g.filePath e.1 ≠ .ok o := by
    rw [hp]
    exact fun hs => hne (Except.ok.inj hs).symm
  refine ⟨fun o p => ?_, fun o ho' => ?_, fun o i hi => ?_⟩
  · rw [hh, ht]
    by_cases hs : o = path
    · subst hs
      rw [if_pos rfl, Finset.mem_union, hl.held, h.held]
      have hc : p ∈ claimedPositions g (done ++ [e]) o ↔ p ∈ claimedPositions g done o ∨
            p ∈ g.rowsOf e.2 := by
        simp [claimedPositions, or_and_right, exists_or, hp]
      simp only [hc, hla, true_and, ht, hd]
      generalize (∃ file, PlannedDelete ts o file ∧ p ∈ sem.contents file.toDeleteFile o) = carried
      tauto
    · have hc : claimedPositions g (done ++ [e]) o = claimedPositions g done o := by
        ext row
        simp [claimedPositions, or_and_right, exists_or, ho hs]
      have hto : Touched g (done ++ [e]) o ↔ Touched g done o := by
        rw [touched_append, or_iff_left (ho hs)]
      rw [if_neg hs, hl.held, h.held, hc, hto, ht]
      simp [hs]
  · rw [touched_append]
    rcases Set.mem_insert_iff.mp (hg ho') with rfl | hme
    · exact .inr (by rw [ht, hp])
    · rcases Set.mem_insert_iff.mp (hl.given hme) with rfl | hb
      · exact .inr (by rw [ht, hp])
      · exact .inl (h.given o hb)
  · have hb (hi : i ∈ s.2 o) : Touched g (done ++ [e]) o ∧ ∃ file, PlannedDelete ts o file ∧
          file.identity = i ∧ ∀ path, sem.Applies live file.toDeleteFile path → path = o := by
      obtain ⟨hto, hf⟩ := h.removed o i hi
      exact ⟨touched_append.mpr (.inl hto), hf⟩
    by_cases hs : o = path
    · subst hs
      simp only [ht, Function.update_self] at hi
      rcases hl.removed i hi with hol | ⟨file, hf, rfl, honl⟩
      · rw [ht] at hol
        exact hb hol
      · rw [ht] at honl
        exact ⟨hla, file, (hd file).mp hf, rfl, honl⟩
    · rw [ht] at hi
      exact hb (by simpa [Function.update_of_ne hs] using hi)

lemma writeFile_loop {ds : List (IcebergFileId × OwnedRowPositions)} {s : W × RemovedByTarget}
    (h : ds.foldlM (writeFile w g (.new ts)) (w.new, fun _ => ∅) = .ok s) :
    Written c g ts ds s := by
  have hs : Written c g ts [] (w.new, fun _ => ∅) := by
    refine ⟨fun path p => ?_, ?_, by simp⟩
    · simp [c.new_held, claimedPositions, Touched]
    · simp [c.new_given]
  exact foldlM_eq_ok (I := Written c g ts) (fun e _ done s s' hst hw => writeFile_step c hst hw) []
    hs h

end Loops

end LagoDB.DeletionVectors
