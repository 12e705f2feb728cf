import LagoDB.ClaimAccounting
import LagoDB.DeletionVectorWrites
import Mathlib.Combinatorics.Colex

/-!
# Committed deletion vectors

A commit drops the delete files its outputs name as removed and adds the vectors. A
touched data file then has its old deletes and the claimed rows, any other data file
what it had before.
-/
namespace LagoDB.DeletionVectors

open ActionLog RowClaims ExceptLoop List RowDeleteOutput

variable {S : Type}

/-! ## Outputs -/

variable {ps : List (DeleteFile × String)}

lemma mem_collectOutputs {r : RemovedByTarget}
    {out : RowDeleteOutput} (h : out ∈ collectOutputs ps r) :
    ∃ path, (out.deleteFile, path) ∈ ps ∧ out.referencedDataFiles = [path] ∧
      out.removedDeleteFiles ⊆ r path := by
  induction ps generalizing r with
  | nil => cases h
  | cons p rest ih =>
    rcases mem_cons.mp h with rfl | hres
    · exact ⟨p.2, mem_cons_self, rfl, Finset.Subset.refl _⟩
    · obtain ⟨path, hp, hr, hre⟩ := ih hres
      refine ⟨path, mem_cons_of_mem p hp, hr, hre.trans ?_⟩
      by_cases hs : path = p.2
      · rw [hs, Function.update_self]
        exact Finset.empty_subset _
      · rw [Function.update_of_ne hs]

lemma exists_collectOutputs (r : RemovedByTarget) {p : DeleteFile × String} (h : p ∈ ps) :
    ∃ out ∈ collectOutputs ps r, out.deleteFile = p.1 ∧ out.referencedDataFiles = [p.2] := by
  induction ps generalizing r with
  | nil => cases h
  | cons f rest ih =>
    rcases mem_cons.mp h with rfl | hr
    · exact ⟨_, mem_cons_self, rfl, rfl⟩
    · obtain ⟨out, ho, hs⟩ := ih (Function.update r f.2 ∅) hr
      exact ⟨out, mem_cons_of_mem _ ho, hs⟩

def carriedPositions (sem : DeleteSemantics) (registry : RelationRowRegistry)
    (tasks : List (FileScanTask S)) (deletes : List (IcebergFileId × OwnedRowPositions))
    (path : String) : Set ℕ :=
  { position | position ∈ claimedPositions registry deletes path ∨
    (Touched registry deletes path ∧ ∃ file, PlannedDelete tasks path file ∧
      position ∈ sem.contents file.toDeleteFile path) }

/-- An output is the vector of one touched data file. Its removed files were merged into
it and apply to no other data file. -/
structure OutputFor (sem : DeleteSemantics) (live : List DeleteFile)
    (registry : RelationRowRegistry) (tasks : List (FileScanTask S))
    (deletes : List (IcebergFileId × OwnedRowPositions)) (output : RowDeleteOutput)
    (path : String) : Prop where
  referenced : output.referencedDataFiles = [path]
  touched : Touched registry deletes path
  vector : output.deleteFile.isDeletionVector = true
  contents : ∀ position, position ∈ sem.contents output.deleteFile path ↔
    position ∈ carriedPositions sem registry tasks deletes path
  scope : ∀ other, sem.inScope output.deleteFile other = true ↔ other = path
  removed : ∀ identity ∈ output.removedDeleteFiles,
    ∃ file, PlannedDelete tasks path file ∧ file.identity = identity ∧
      ∀ other, sem.Applies live file.toDeleteFile other → other = path

section Writes

variable [EmptyCollection S] [DecidableEq S] {W : Type} {w : DeletionVectorFileWriter S W}
  {sem : DeleteSemantics} {live : List DeleteFile}

lemma writeFiles_outputs (c : WriterContract w sem live) {g : RelationRowRegistry}
    {ts : List (FileScanTask S)} {ds : List (IcebergFileId × OwnedRowPositions)}
    {os : List RowDeleteOutput} (h : writeFiles w ds g (.new ts) = .ok os) :
    (∀ out ∈ os, ∃ path, OutputFor sem live g ts ds out path) ∧
      ∀ path, (carriedPositions sem g ts ds path).Nonempty →
        ∃ out ∈ os, OutputFor sem live g ts ds out path := by
  obtain ⟨⟨v, r⟩, hlo, h⟩ := bind_eq_ok h
  obtain ⟨⟨f, referenced⟩, hc, h⟩ := bind_eq_ok h
  cases h
  have hw := writeFile_loop c hlo
  have hh (path : String) (p : ℕ) : p ∈ c.held v path ↔
      p ∈ carriedPositions sem g ts ds path := hw.held path p
  have ho {out : RowDeleteOutput} (hm : out ∈ collectOutputs (f.zip referenced) r) :
      ∃ path, OutputFor sem live g ts ds out path := by
    obtain ⟨path, hp, hr, hre⟩ := mem_collectOutputs hm
    obtain ⟨hv, hco, hs⟩ := c.close_files v f referenced hc out.deleteFile path hp
    have hg := c.close_given v f referenced hc path (of_mem_zip hp).2
    refine ⟨path, hr, hw.given path hg, hv, fun p => ?_, hs,
      fun identity hi => (hw.removed path identity (hre hi)).2⟩
    rw [hco, hh]
  refine ⟨fun out => ho, fun path hca => ?_⟩
  have hn : (c.held v path).Nonempty := by
    obtain ⟨p, hpo⟩ := hca
    exact ⟨p, (hh path p).mpr hpo⟩
  have hr := c.close_held v f referenced hc path hn
  obtain ⟨i, hin⟩ := mem_iff_getElem?.mp hr
  have hl := c.close_length v f referenced hc
  obtain ⟨file, hfi⟩ : ∃ file, f[i]? = some file := by
    have hb : i < f.length := by
      rw [hl]
      exact (List.getElem?_eq_some_iff.mp hin).1
    exact ⟨_, getElem?_eq_getElem hb⟩
  have hp : (file, path) ∈ f.zip referenced := mem_of_getElem? (getElem?_zip_eq_some.mpr ⟨hfi, hin⟩)
  obtain ⟨out, hm, -, hsa⟩ := exists_collectOutputs r hp
  obtain ⟨o, hf⟩ := ho hm
  have hpa : o = path := by
    have hli : [o] = [path] := hf.referenced.symm.trans hsa
    simpa using hli
  exact ⟨out, hm, hpa ▸ hf⟩

end Writes

/-! ## Commit -/

def commitOutputs (live : List DeleteFile) (outputs : List RowDeleteOutput) : List DeleteFile :=
  (live.filter fun file => ∀ output ∈ outputs, file.identity ∉ output.removedDeleteFiles) ++
    outputs.map deleteFile

/-- The tasks of a data file list the delete files that apply to it. They may list position
deletes of other data files as well. -/
structure PlannedFrom (sem : DeleteSemantics) (live : List DeleteFile)
    (tasks : List (FileScanTask S)) (path : String) : Prop where
  complete : ∀ file ∈ live, sem.Applies live file path →
    ∃ task ∈ tasks, task.dataFilePath = path ∧
      ∃ listed ∈ task.deletes, listed.toDeleteFile = file
  sound : ∀ task ∈ tasks, task.dataFilePath = path → ∀ listed ∈ task.deletes,
    listed.toDeleteFile ∈ live ∧ (sem.Applies live listed.toDeleteFile path ∨
      ∃ other, listed.referencedDataFilePath = some other ∧ other ≠ path)

section Commit

variable {sem : DeleteSemantics} {live : List DeleteFile} {g : RelationRowRegistry}
  {ts : List (FileScanTask S)} {ds : List (IcebergFileId × OwnedRowPositions)}
  {os : List RowDeleteOutput} {path : String}

lemma PlannedDelete.applies (hpl : PlannedFrom sem live ts path)
    {file : FileScanTaskDeleteFile} (h : PlannedDelete ts path file) :
    file.toDeleteFile ∈ live ∧ sem.Applies live file.toDeleteFile path := by
  obtain ⟨⟨t, ht, hp, hf⟩, -, hr⟩ := h
  obtain ⟨hl, ha | ⟨other, ho, hne⟩⟩ := hpl.sound t ht hp file hf
  · exact ⟨hl, ha⟩
  · exact absurd (hr other ho) hne

variable {file : DeleteFile} {p : ℕ}

lemma plannedDelete_of_applies (hpl : PlannedFrom sem live ts path) (hli : file ∈ live)
    (ha : sem.Applies live file path) (hp : file.isPositionDelete = true)
    (hr : p ∈ sem.contents file path) :
    ∃ ls, PlannedDelete ts path ls ∧ ls.toDeleteFile = file := by
  obtain ⟨t, ht, hpa, ls, hl, rfl⟩ := hpl.complete file hli ha
  refine ⟨ls, ⟨⟨t, ht, hpa, hl⟩, hp, fun o ho => ?_⟩, rfl⟩
  by_contra hne
  rw [sem.referenced _ path o ho (Ne.symm hne)] at hr
  cases hr

lemma applies_vector (hv : file.isDeletionVector = true) (hs : sem.inScope file path = true) :
    sem.Applies live file path := by
  refine ⟨hs, fun _ _ hn => ?_⟩
  rw [hv] at hn
  cases hn

variable (hdi : ∀ file ∈ live, ∀ other ∈ live, file.identity = other.identity → file = other)
  (hpla : ∀ path, Touched g ds path → PlannedFrom sem live ts path)
  (hou : ∀ output ∈ os, ∃ path, OutputFor sem live g ts ds output path)

include hdi hpla hou

lemma removed_spec {out : RowDeleteOutput} (ho : out ∈ os) (hli : file ∈ live)
    (hr : file.identity ∈ out.removedDeleteFiles) :
    ∃ path, OutputFor sem live g ts ds out path ∧ (∃ ls, PlannedDelete ts path ls ∧
      ls.toDeleteFile = file) ∧ ∀ o, sem.Applies live file o → o = path := by
  obtain ⟨path, hf⟩ := hou out ho
  obtain ⟨ls, hl, hi, hon⟩ := hf.removed file.identity hr
  have hs : ls.toDeleteFile = file := hdi _ (hl.applies (hpla path hf.touched)).1 file hli hi
  subst hs
  exact ⟨path, hf, ⟨ls, hl, rfl⟩, hon⟩

/-- What a file that applies to an untouched data file, or an equality delete, is not. -/
lemma kept_of_applies (hli : file ∈ live) (ha : sem.Applies live file path)
    (hk : ¬Touched g ds path ∨ file.isPositionDelete = false) : file ∈ commitOutputs live os := by
  refine mem_append_left _ (mem_filter.mpr ⟨hli, ?_⟩)
  rw [decide_eq_true_iff]
  intro output ho hr
  obtain ⟨t, hf, ⟨l, hl, rfl⟩, hon⟩ := removed_spec hdi hpla hou ho hli hr
  rcases hk with hu | he
  · rw [hon path ha] at hu
    exact hu hf.touched
  · rw [hl.2.1] at he
    cases he

variable (hco : ∀ path, (carriedPositions sem g ts ds path).Nonempty → ∃ output ∈ os,
    OutputFor sem live g ts ds output path)

include hco

omit hdi hpla hou in
lemma carried_deleted (h : p ∈ carriedPositions sem g ts ds path) :
    p ∈ sem.deletedPositions (commitOutputs live os) path := by
  obtain ⟨output, ho, hf⟩ := hco path ⟨p, h⟩
  refine ⟨output.deleteFile, ?_, ?_, (hf.contents p).mpr h⟩
  · exact mem_append_right _ (mem_map_of_mem ho)
  · exact applies_vector hf.vector ((hf.scope path).mpr rfl)

/-- No delete is lost. -/
lemma deleted_commit_of_deleted (h : p ∈ sem.deletedPositions live path) :
    p ∈ sem.deletedPositions (commitOutputs live os) path := by
  obtain ⟨file, hl, ha, hr⟩ := h
  by_cases ht : Touched g ds path
  · by_cases hpo : file.isPositionDelete = true
    · obtain ⟨l, hli, rfl⟩ := plannedDelete_of_applies (hpla path ht) hl ha hpo hr
      exact carried_deleted hco (.inr ⟨ht, l, hli, hr⟩)
    · rw [Bool.not_eq_true] at hpo
      refine ⟨file, kept_of_applies hdi hpla hou hl ha (.inr hpo), ⟨ha.1, fun _ hp => ?_⟩, hr⟩
      rw [hpo] at hp
      cases hp
  · refine ⟨file, kept_of_applies hdi hpla hou hl ha (.inl ht),
      ⟨ha.1, fun hh hp hpl v hv hk => ?_⟩, hr⟩
    rcases mem_append.mp hv with hol | hn
    · exact ha.2 hh hp hpl v (mem_of_mem_filter hol) hk
    · obtain ⟨output, ho, rfl⟩ := mem_map.mp hn
      obtain ⟨t, hf⟩ := hou output ho
      rw [← Bool.not_eq_true, hf.scope]
      rintro rfl
      exact ht hf.touched

variable (hcl : ∀ entry ∈ ds, (g.rowsOf entry.2).Nonempty)

include hcl

/-- Nothing else is deleted. -/
lemma deleted_of_deleted_commit (h : p ∈ sem.deletedPositions (commitOutputs live os) path) :
    p ∈ sem.deletedPositions live path ∨ p ∈ claimedPositions g ds path := by
  obtain ⟨file, hfi, ha, hr⟩ := h
  rcases mem_append.mp hfi with hol | hn
  · refine .inl ⟨file, mem_of_mem_filter hol, ⟨ha.1, fun hhi hp hpl v hv hki => ?_⟩, hr⟩
    by_cases hk : v ∈ commitOutputs live os
    · exact ha.2 hhi hp hpl v hk hki
    -- A vector that is gone was the data file's own, and the new one hides the file.
    · rw [← Bool.not_eq_true]
      intro hs
      have ht : Touched g ds path := by
        by_contra hu
        exact hk (kept_of_applies hdi hpla hou hv (applies_vector hki hs) (.inl hu))
      obtain ⟨entry, he, hpa⟩ := ht
      obtain ⟨row, hc⟩ := hcl entry he
      obtain ⟨output, ho, hf⟩ := hco path ⟨row, .inl ⟨entry, he, hpa, hc⟩⟩
      have hh := ha.2 hhi hp hpl output.deleteFile
        (mem_append_right _ (mem_map_of_mem ho)) hf.vector
      rw [(hf.scope path).mpr rfl] at hh
      cases hh
  · obtain ⟨output, ho, rfl⟩ := mem_map.mp hn
    obtain ⟨t, hf⟩ := hou output ho
    obtain rfl := (hf.scope path).mp ha.1
    rcases (hf.contents p).mp hr with hc | ⟨ht, l, hl, hhe⟩
    · exact .inr hc
    · obtain ⟨hli, hl'⟩ := hl.applies (hpla path ht)
      exact .inl ⟨l.toDeleteFile, hli, hl', hhe⟩

end Commit

/-! ## The delete set -/

structure PreservesDeletes (sem : DeleteSemantics) (live : List DeleteFile)
    (registry : RelationRowRegistry) (deletes : List (IcebergFileId × OwnedRowPositions))
    (outputs : List RowDeleteOutput) : Prop where
  touched : ∀ path, Touched registry deletes path →
    sem.deletedPositions (commitOutputs live outputs) path =
      sem.deletedPositions live path ∪ claimedPositions registry deletes path
  others : ∀ path, ¬Touched registry deletes path →
    sem.deletedPositions (commitOutputs live outputs) path = sem.deletedPositions live path
  removed : ∀ output ∈ outputs, ∀ file ∈ live, file.identity ∈ output.removedDeleteFiles →
    ∀ path, sem.Applies live file path →
      path ∈ output.referencedDataFiles ∧
        sem.contents file path ⊆ sem.contents output.deleteFile path

lemma preservesDeletes_of_nonempty [EmptyCollection S] [DecidableEq S] {W : Type}
    {w : DeletionVectorFileWriter S W} {sem : DeleteSemantics} {live : List DeleteFile}
    (c : WriterContract w sem live)
    (hdi : ∀ file ∈ live, ∀ o ∈ live, file.identity = o.identity → file = o)
    {g : RelationRowRegistry} {ts : List (FileScanTask S)}
    {ds : List (IcebergFileId × OwnedRowPositions)}
    (hpl : ∀ path, Touched g ds path → PlannedFrom sem live ts path)
    (hcl : ∀ e ∈ ds, (g.rowsOf e.2).Nonempty) {os : List RowDeleteOutput}
    (hw : writeFiles w ds g (.new ts) = .ok os) : PreservesDeletes sem live g ds os := by
  obtain ⟨hou, hc⟩ := writeFiles_outputs c hw
  have hd (path : String) : sem.deletedPositions (commitOutputs live os) path =
      sem.deletedPositions live path ∪ claimedPositions g ds path := by
    ext p
    constructor
    · exact deleted_of_deleted_commit hdi hpl hou hc hcl
    · rintro (hol | hn)
      · exact deleted_commit_of_deleted hdi hpl hou hc hol
      · exact carried_deleted hc (.inl hn)
  refine ⟨fun path _ => hd path, fun path hu => ?_, ?_⟩
  · rw [hd]
    refine Set.union_eq_self_of_subset_right ?_
    rintro p ⟨e, he, hp, -⟩
    exact absurd ⟨e, he, hp⟩ hu
  · intro output ho file hli hr path ha
    obtain ⟨t, hf, ⟨l, hl, rfl⟩, hon⟩ := removed_spec hdi hpl hou ho hli hr
    obtain rfl := hon path ha
    refine ⟨by simp [hf.referenced], fun p hro => (hf.contents p).mpr ?_⟩
    exact .inr ⟨hf.touched, l, hl, hro⟩

/-- The rows any state has claimed along a run, and any planned tasks. -/
theorem writeFiles_preservesDeletes [EmptyCollection S] [DecidableEq S] {W ρ : Type}
    {writer : DeletionVectorFileWriter S W} {sem : DeleteSemantics} {live : List DeleteFile}
    (contract : WriterContract writer sem live)
    (hdistinct : ∀ file ∈ live, ∀ other ∈ live, file.identity = other.identity → file = other)
    (encode : ρ → Except IcebergError Unit) (events : List (Event ρ)) {session : ℕ}
    {own : RowDeleteState} (hown : (Run.run encode events).deletesOf session = some own)
    {tasks : List (FileScanTask S)}
    (hplanned : ∀ path, Touched (Run.run encode events).registry own.positionDeletes path →
      PlannedFrom sem live tasks path) {outputs : List RowDeleteOutput}
    (hwrite : writeFiles writer own.positionDeletes (Run.run encode events).registry
      (.new tasks) = .ok outputs) :
    PreservesDeletes sem live (Run.run encode events).registry own.positionDeletes outputs :=
  preservesDeletes_of_nonempty contract hdistinct hplanned
    (fun _ he => rowsOf_positionDeletes_nonempty encode events hown he) hwrite

/-! ### A vector and a shared position delete file -/

/-- The rows of a vector are the bits of its record count. -/
def bitContents (file : DeleteFile) (path : String) : Finset ℕ :=
  match file.referencedDataFilePath with
  | some referenced => if referenced = path then file.recordCount.bitIndices.toFinset else ∅
  | none => if path = "a" then {1} else if path = "b" then {2} else ∅

def bitSemantics : DeleteSemantics where
  contents := bitContents
  inScope file path := file.referencedDataFilePath.all (· = path)
  vectorsHide := false
  referenced file path other h hne := by
    rw [bitContents, h]
    exact if_neg (Ne.symm hne)

def vectorFile (path : String) (rows : Finset ℕ) : DeleteFile where
  filePath := "vectors.puffin"
  fileSizeInBytes := 0
  fileFormat := .puffin
  isPositionDelete := true
  referencedDataFilePath := some path
  contentOffset := some 4
  contentSizeInBytes := some 8
  recordCount := ∑ row ∈ rows, 2 ^ row
  keyMetadata := none

def sharedFile : DeleteFile :=
  ⟨"shared.parquet", 10, .parquet, true, none, none, none, 2, none⟩

def liveFiles : List DeleteFile := [sharedFile, vectorFile "a" {3}]

/-- The data files given to the writer, and their rows. -/
abbrev BitVectors := List String × (String → Finset ℕ)

def BitVectors.rows (vectors : BitVectors) (path : String) : Finset ℕ :=
  if path ∈ vectors.1 then vectors.2 path else ∅

def BitVectors.add (target : String) (rows : Finset ℕ) (vectors : BitVectors) : BitVectors :=
  (target :: vectors.1,
    fun path => if path = target then vectors.rows path ∪ rows else vectors.rows path)

def bitWriter : DeletionVectorFileWriter (List ℕ) BitVectors where
  new := ([], fun _ => ∅)
  mergeExistingPositionDeleteFile target existing vectors :=
    .ok (existing.referencedDataFilePath == some target.filePath,
      vectors.add target.filePath (bitContents existing target.filePath))
  deleteAll target rows vectors := .ok (vectors.add target.filePath rows)
  close vectors := .ok
    (vectors.1.dedup.map fun path => vectorFile path (vectors.rows path), vectors.1.dedup)

lemma BitVectors.rows_add (t path : String) (rs : Finset ℕ) (vs : BitVectors) :
    (vs.add t rs).rows path = if path = t then vs.rows path ∪ rs else vs.rows path := by
  rw [BitVectors.rows, BitVectors.add]
  by_cases hs : path = t
  · simp [hs]
  · simp only [mem_cons, hs, false_or, if_false]
    rw [BitVectors.rows]
    split_ifs <;> rfl

def bitContract : WriterContract bitWriter bitSemantics liveFiles where
  held := BitVectors.rows
  given vectors := { path | path ∈ vectors.1 }
  new_held path := by simp [BitVectors.rows, bitWriter]
  new_given := by simp [bitWriter]
  merge_held := by
    rintro target existing vectors canRemove _ ⟨⟩ path
    rw [BitVectors.rows_add]
    split_ifs with hsame
    · rw [hsame]
      rfl
    · rfl
  merge_given := by
    rintro target existing vectors canRemove _ ⟨⟩ path hpath
    exact mem_cons.mp hpath
  merge_canRemove := by
    intro target existing vectors vectors' hmerge _ path happlies
    have hreferenced : existing.referencedDataFilePath = some target.filePath := by
      have hpair := congrArg Prod.fst (Except.ok.inj hmerge)
      simpa using hpair
    have hscope := happlies.1
    simp only [bitSemantics, hreferenced, Option.all_some, decide_eq_true_eq] at hscope
    exact hscope.symm
  deleteAll_held := by
    rintro target rows vectors _ ⟨⟩ path
    exact BitVectors.rows_add target.filePath path rows vectors
  deleteAll_given := by
    rintro target rows vectors _ ⟨⟩ path hpath
    exact mem_cons.mp hpath
  close_length := by
    rintro vectors _ _ ⟨⟩
    exact length_map _
  close_held := by
    rintro vectors _ _ ⟨⟩ path hrows
    rw [mem_dedup]
    by_contra hpath
    rw [BitVectors.rows, if_neg hpath] at hrows
    exact Finset.not_nonempty_empty hrows
  close_given := by
    rintro vectors _ _ ⟨⟩ path hpath
    exact mem_dedup.mp hpath
  close_files := by
    rintro vectors _ _ ⟨⟩ file path hpair
    have hzip (paths : List String) :
        (paths.map fun path => vectorFile path (vectors.rows path)).zip paths =
          paths.map fun path => (vectorFile path (vectors.rows path), path) := by
      induction paths with
      | nil => rfl
      | cons first rest ih => simp [ih]
    rw [hzip] at hpair
    obtain ⟨_, -, hpair⟩ := mem_map.mp hpair
    cases hpair
    refine ⟨rfl, ?_, fun other => ?_⟩
    · simp [bitSemantics, bitContents, vectorFile]
    · simp [bitSemantics, vectorFile, eq_comm]

def claimEvents : List (Event Unit) :=
  [.registerFile "a", .openSession false true, .mutate 0 .delete ⟨0, by decide⟩ 7 1 1]

def claimedRows : RowDeleteState := ⟨0, [(⟨0, by decide⟩, 0)]⟩

def splitTasks : List (FileScanTask (List ℕ)) :=
  [⟨"a", none, none, 0, [⟨sharedFile, false⟩]⟩,
    ⟨"b", none, none, 0, [⟨sharedFile, false⟩]⟩,
    ⟨"a", none, none, 0, [⟨vectorFile "a" {3}, true⟩]⟩]

lemma splitTasks_planned : PlannedFrom bitSemantics liveFiles splitTasks "a" where
  complete := by
    intro file hf _
    simp only [liveFiles, mem_cons, not_mem_nil, or_false] at hf
    rcases hf with rfl | rfl
    · exact ⟨_, mem_cons_self, rfl, _, mem_cons_self, rfl⟩
    · refine ⟨⟨"a", none, none, 0, [⟨vectorFile "a" {3}, true⟩]⟩, ?_, rfl, _, mem_cons_self, rfl⟩
      simp [splitTasks]
  sound := by
    intro t ht hp l hl
    have hf : l.toDeleteFile = sharedFile ∨ l.toDeleteFile = vectorFile "a" {3} := by
      simp only [splitTasks, mem_cons, not_mem_nil, or_false] at ht
      rcases ht with rfl | rfl | rfl
      · simp_all
      · simp_all
      · simp_all
    rcases hf with hf | hf
    · rw [hf]
      exact ⟨by simp [liveFiles], .inl ⟨rfl, fun hh => nomatch hh⟩⟩
    · rw [hf]
      exact ⟨by simp [liveFiles], .inl ⟨rfl, fun hh => nomatch hh⟩⟩

/-- The data file's vector is replaced, the shared position delete file stays. -/
theorem splitTasks_preservesDeletes :
    ∃ outputs, writeFiles bitWriter claimedRows.positionDeletes
        (Run.run (fun _ => .ok ()) claimEvents).registry (.new splitTasks) = .ok outputs ∧
      outputs.map removedDeleteFiles = [{(vectorFile "a" {3}).identity}] ∧
      PreservesDeletes bitSemantics liveFiles (Run.run (fun _ => .ok ()) claimEvents).registry
        claimedRows.positionDeletes outputs := by
  have ho : (Run.run (fun _ => .ok ()) claimEvents).deletesOf 0 = some claimedRows := rfl
  obtain ⟨outputs, hw, hr⟩ : ∃ outputs, writeFiles bitWriter claimedRows.positionDeletes
        (Run.run (fun _ => .ok ()) claimEvents).registry (.new splitTasks) = .ok outputs ∧
      outputs.map removedDeleteFiles = [{(vectorFile "a" {3}).identity}] := ⟨_, rfl, rfl⟩
  refine ⟨outputs, hw, hr, writeFiles_preservesDeletes bitContract ?_ _ claimEvents ho ?_ hw⟩
  · simp [liveFiles, DeleteFile.identity, sharedFile, vectorFile]
  · rintro path ⟨entry, he, hp⟩
    obtain rfl := mem_singleton.mp he
    cases hp
    exact splitTasks_planned

end LagoDB.DeletionVectors
