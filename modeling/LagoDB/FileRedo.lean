import LagoDB.FileWal
import LagoDB.PositionedWrites
import Mathlib.Data.UInt

/-!
# Redo of the local file WAL

Recovery applies the records one after another to the files of the replica. A chunk of a
file whose beginning is missing is skipped, and the path is remembered until the file is
created again. Directories are not part of the state: recovery creates missing parents,
and an empty directory holds no regular file. A path names one file, and two paths name two:
links and spellings such as `a//b` are left out.
-/
namespace LagoDB.FileWal

open ByteCodec List Option Function IcebergWalOp PositionedWrites

/-- The regular files of the replica and the paths of `LOSSY_SKIPPED_WRITE_PATHS`. -/
structure Replica where
  files : String → Option Bytes
  lossySkipped : Finset String

/-! ## The redo functions -/

def hasNul (path : String) : Bool :=
  (utf8 path).contains 0

/-- Whether removing the path given first, with all its contents, removes the file. -/
def isWithin (directory path : String) : Bool :=
  let root := utf8 directory
  let below := if root.getLast? = some 47 then root else root ++ [47]
  !root.isEmpty && (root == utf8 path || below.isPrefixOf (utf8 path))

variable (replica : Replica)

/-- The removal of a directory with its contents, or of the file of that name. A path
with a NUL cannot be looked up, which is a warning only. -/
def Replica.removeAll (directory : String) : Replica :=
  if hasNul directory then replica
  else { replica with
    files := fun path => if isWithin directory path then none else replica.files path }

def redoRemoveDirectory (record : WalRecord) :
    Except WalRmgrError Replica :=
  match record.mainData with
  | none => .error (.invalidRecord "Missing main data")
  | some data => do
    match ← extractDirectoryPath data with
    | none => .error (.invalidRecord "Failed to extract directory path")
    | some path => .ok (replica.removeAll path)

/-- One turn of the loop of `redo_delete_files`. -/
def Replica.deleteFile (path : String) : Replica :=
  { files := update replica.files path none
    lossySkipped := replica.lossySkipped.erase path }

def redoDeleteFiles (record : WalRecord) : Except WalRmgrError Replica :=
  match record.mainData with
  | none => .error (.invalidRecord "Missing main data")
  | some data => do
    match ← extractDeleteFilePaths data with
    | none => .error (.invalidRecord "Invalid DELETE_FILES record")
    | some paths => .ok (paths.foldl Replica.deleteFile replica)

/-- The content of the file that is opened; offset zero creates or truncates it. -/
def Replica.openFile (path : String) (offset : ℤ) : Option Bytes :=
  if path.isEmpty then none
  else if offset = 0 then some []
  else replica.files path

/-- What `redo_write_file` does with the contents of the record. -/
def Replica.writeChunk (path : String) (offset : ℤ) (data : Bytes) :
    Except WalRmgrError Replica :=
  if 0 < offset ∧ path ∈ replica.lossySkipped then .ok replica
  else if hasNul path then .error (.invalidRecord "Invalid path string")
  else
    match replica.openFile path offset with
    | none =>
      if 0 < offset then
        .ok { replica with lossySkipped := insert path replica.lossySkipped }
      else .error (.redoFailed offset path)
    | some content =>
      let lossySkipped :=
        if offset = 0 then replica.lossySkipped.erase path else replica.lossySkipped
      if data.isEmpty then
        .ok { files := update replica.files path (some content), lossySkipped }
      else if offset < 0 then .error (.redoFailed offset path)
      else
        .ok { files := update replica.files path
                (some (writeAt content offset.toNat data))
              lossySkipped }

variable (isCrashRecoveryOnly : Bool)

def redoWriteFile (replica : Replica) (record : WalRecord) :
    Except WalRmgrError Replica :=
  if isCrashRecoveryOnly then .ok replica
  else
    match record.mainData with
    | none => .error (.invalidRecord "Missing main data")
    | some data => do
      match ← extractWriteFileInfo data with
      | none => .error (.invalidRecord "Invalid WRITE_FILE record")
      | some (path, offset, dataLen) =>
        replica.writeChunk path offset (data.drop (data.length - dataLen))

def redo (replica : Replica) (record : WalRecord) :
    Except WalRmgrError Replica :=
  match fromInfo record.info with
  | none => .error (.unknownOperation record.info)
  | some .deleteDirectory => redoRemoveDirectory replica record
  | some .writeFile => redoWriteFile isCrashRecoveryOnly replica record
  | some .deleteFiles => redoDeleteFiles replica record
  | some .truncateDirectory =>
    if isCrashRecoveryOnly then .ok replica else redoRemoveDirectory replica record

def replay (replica : Replica) (records : List WalRecord) :
    Except WalRmgrError Replica :=
  records.foldlM (redo isCrashRecoveryOnly) replica

/-- The skip set lives in memory and starts empty. -/
def Replica.booted (files : String → Option Bytes) : Replica :=
  { files := files, lossySkipped := ∅ }

/-! ## What a valid record does to a path -/

/-- A record that recovery can read, by its contents. -/
inductive Operation
  | write (path : String) (offset : ℕ) (data : Bytes)
  | delete (paths : List String)
  | remove (directory : String)
  | truncate (directory : String)

variable (record : WalRecord)

/-- The operation of a record; none if the record is not valid. -/
def WalRecord.operation : Option Operation := do
  let op ← fromInfo record.info
  let data ← record.mainData
  match op with
  | .deleteDirectory => (extractDirectoryPath data).toOption.join.map .remove
  | .truncateDirectory => (extractDirectoryPath data).toOption.join.map .truncate
  | .deleteFiles => (extractDeleteFilePaths data).toOption.join.map .delete
  | .writeFile =>
    let (path, offset, dataLen) ← (extractWriteFileInfo data).toOption.join
    if 0 ≤ offset ∧ path.isEmpty = false ∧ hasNul path = false then
      some (.write path offset.toNat (data.drop (data.length - dataLen)))
    else none

def WalRecord.Valid : Prop :=
  record.operation.isSome

lemma WalRecord.mainData_logWriteFile (path : String) (o : ℤ) (data : Bytes) :
    (logWriteFile path o data).mainData = some (logWriteFile path o data).data := by
  have hl : 0 < (logWriteFile path o data).data.length := by simp [logWriteFile, sizeOfWriteFile]
  rw [WalRecord.mainData, if_neg (by simpa using length_pos_iff.mp hl)]

variable {o : ℕ}

lemma operation_logWriteFile {path : String} {data : Bytes} (hl : (utf8 path).length < 2 ^ 32)
    (hp : path.isEmpty = false) (hn : hasNul path = false) (ho : o < 2 ^ 63) :
    (logWriteFile path o data).operation = some (.write path o data) := by
  have hf : FitsInt 8 o := by constructor <;> omega
  have hi : fromInfo (logWriteFile path o data).info = some .writeFile := fromInfo_toInfo .writeFile
  simp only [WalRecord.operation, bind_eq_bind, hi, bind_some,
    WalRecord.mainData_logWriteFile, extract_logWriteFile hl hf, Except.toOption,
    join_some, hp, hn, and_true, Int.natCast_nonneg, if_true, Int.toNat_natCast,
    drop_logWriteFile]

def chunkEffect (offset : ℕ) (data : Bytes) : Effect UInt8 :=
  if offset = 0 then .assign (some data) else .overwrite offset data

/-- What an operation does to the content of one path. -/
def Operation.effect (path : String) :
    Operation → Option (Effect UInt8)
  | .write written offset data =>
    if !isCrashRecoveryOnly && path = written then some (chunkEffect offset data) else none
  | .delete paths => if path ∈ paths then some (.assign none) else none
  | .remove directory =>
    if !hasNul directory && isWithin directory path then some (.assign none) else none
  | .truncate directory =>
    if !isCrashRecoveryOnly && (!hasNul directory && isWithin directory path) then
      some (.assign none)
    else none

/-- No path of the skip set has a file. -/
def Replica.Intact : Prop :=
  ∀ path ∈ replica.lossySkipped, replica.files path = none

lemma Replica.intact_booted (fs : String → Option Bytes) : (booted fs).Intact := by
  intro path hp
  simp [booted] at hp

/-- Each path changed by its effect, and what is skipped does not show in the files. -/
structure Replica.Affected (replica : Replica) (effect : String → Option (Effect UInt8))
    (result : Replica) : Prop where
  intact : result.Intact
  files : ∀ path, result.files path = applyAll (effect path).toList (replica.files path)

variable {r : Replica} {path : String} {data : Bytes} {c : Bool}

lemma Replica.Intact.unaffected (h : r.Intact) : r.Affected (fun _ => none) r := ⟨h, fun _ => rfl⟩

open Replica

lemma writeChunk_open {c : Bytes} (hnu : hasNul path = false)
    (hs : ¬ (0 < o ∧ path ∈ r.lossySkipped)) (ho : r.openFile path o = some c) :
    r.writeChunk path o data =
      .ok { files := update r.files path (some (writeAt c o data))
            lossySkipped :=
              if o = 0 then r.lossySkipped.erase path else r.lossySkipped } := by
  have hn : ¬ (o : ℤ) < 0 := by omega
  by_cases hd : data.isEmpty
  · simp [writeChunk, hs, hnu, ho, hd, writeAt]
  · simp [writeChunk, hs, hnu, ho, hd, hn]

attribute [local simp] Effect.apply applyAll chunkEffect

lemma writeChunk_affects (h : r.Intact) (hp : path.isEmpty = false) (hn : hasNul path = false) :
    ∃ result, r.writeChunk path o data = .ok result ∧
      r.Affected (fun p => if p = path then some (chunkEffect o data) else none) result := by
  by_cases hz : o = 0
  · have hope : r.openFile path o = some [] := by simp [openFile, hp, hz]
    refine ⟨_, writeChunk_open hn (by omega) hope, fun other ho => ?_, fun other => ?_⟩
    · simp only [hz, if_true, Finset.mem_erase] at ho
      simpa [update_of_ne ho.1] using h other ho.2
    · have hw : writeAt [] 0 data = data := writeAt_length [] data
      by_cases ho : other = path <;>
        simp [ho, hw, hz]
  · have hpos : 0 < o := Nat.pos_of_ne_zero hz
    have hope : r.openFile path o = r.files path := by simp [openFile, hp, hz]
    by_cases hs : path ∈ r.lossySkipped
    · refine ⟨r, by simp [writeChunk, hs, hpos], h, fun other => ?_⟩
      by_cases ho : other = path <;>
        simp [ho, hz, h path hs]
    cases hf : r.files path with
    | none =>
      refine ⟨{ r with lossySkipped := insert path r.lossySkipped },
        by simp [writeChunk, hs, hn, hope, hf, hpos], fun other ho => ?_, fun other => ?_⟩
      · rcases Finset.mem_insert.mp ho with rfl | hm
        · exact hf
        · exact h other hm
      · by_cases ho : other = path <;>
          simp [ho, hz, hf]
    | some c =>
      refine ⟨_, writeChunk_open hn (by simp [hs]) (hope.trans hf),
        fun other ho => ?_, fun other => ?_⟩
      · simp only [hz, if_false] at ho
        have hne : other ≠ path := fun heq => hs (heq ▸ ho)
        simpa [update_of_ne hne] using h other ho
      · by_cases ho : other = path <;>
          simp [ho, hz, hf]

attribute [local simp] Operation.effect

lemma removeAll_affects (h : r.Intact) (d : String) :
    r.Affected (Operation.effect c · (.remove d)) (r.removeAll d) := by
  cases hn : hasNul d with
  | true => simpa [Replica.removeAll, hn] using h.unaffected
  | false =>
    simp only [Operation.effect, Replica.removeAll, hn, Bool.false_eq_true, if_false,
      Bool.not_false, Bool.true_and]
    refine ⟨fun path hp => ?_, fun path => ?_⟩
    · simp [h path hp]
    · cases hw : isWithin d path <;> simp [hw]

lemma deleteFiles_affects (h : r.Intact) (ps : List String) :
    r.Affected (Operation.effect c · (.delete ps)) (ps.foldl deleteFile r) := by
  induction ps generalizing r with
  | nil => simpa using h.unaffected
  | cons f rest ih =>
    have hfi : (r.deleteFile f).Intact := by
      intro path hp
      obtain ⟨hne, hm⟩ := Finset.mem_erase.mp hp
      simpa [deleteFile, update_of_ne hne] using h path hm
    obtain ⟨hi, hf⟩ := ih hfi
    refine ⟨hi, fun path => ?_⟩
    rw [foldl_cons, hf]
    by_cases hp : path = f
    · subst hp
      by_cases hr : path ∈ rest <;>
        simp [deleteFile, hr]
    · simp [deleteFile, hp]

lemma toOption_join_eq_some {ε β : Type*} {r : Except ε (Option β)} {v : β}
    (h : r.toOption.join = some v) : r = .ok (some v) := by
  rcases r with _ | _ | found <;> cases h
  rfl

/-- Redo of a valid record succeeds, and every path changes by the effect of its operation. -/
lemma redo_affects {record : WalRecord} {operation : Operation} (hi : r.Intact)
    (h : record.operation = some operation) :
    ∃ result, redo c r record = .ok result ∧ r.Affected (operation.effect c ·) result := by
  simp only [WalRecord.operation, bind_eq_bind, bind_eq_some_iff] at h
  obtain ⟨op, hop, data, hd, h⟩ := h
  cases op with
  | deleteDirectory =>
    obtain ⟨path, hp, rfl⟩ := map_eq_some_iff.mp h
    simp only [redo, hop, redoRemoveDirectory, hd, toOption_join_eq_some hp]
    exact ⟨_, rfl, removeAll_affects hi path⟩
  | truncateDirectory =>
    obtain ⟨path, hp, rfl⟩ := map_eq_some_iff.mp h
    simp only [redo, hop, redoRemoveDirectory, hd, toOption_join_eq_some hp]
    cases c with
    | true => exact ⟨r, rfl, hi.unaffected⟩
    | false =>
      have hr := @removeAll_affects _ false hi path
      exact ⟨_, rfl, by simpa using hr⟩
  | deleteFiles =>
    obtain ⟨p, hpa, rfl⟩ := map_eq_some_iff.mp h
    simp only [redo, hop, redoDeleteFiles, hd, toOption_join_eq_some hpa]
    exact ⟨_, rfl, deleteFiles_affects hi p⟩
  | writeFile =>
    obtain ⟨⟨path, o, d⟩, hin, h⟩ := bind_eq_some_iff.mp h
    obtain ⟨⟨ho, hp, hn⟩, h⟩ := ite_none_right_eq_some.mp h
    cases h
    obtain ⟨o, rfl⟩ := Int.eq_ofNat_of_zero_le ho
    simp only [redo, hop, redoWriteFile, hd, toOption_join_eq_some hin]
    cases c with
    | true => exact ⟨r, rfl, hi.unaffected⟩
    | false =>
      obtain ⟨result, hw, ha⟩ := writeChunk_affects hi hp hn
      exact ⟨result, hw, by simpa using ha⟩

/-! ## Restarting recovery -/

def effects (records : List WalRecord) (path : String) :
    List (Effect UInt8) :=
  records.flatMap fun record =>
    (record.operation.bind fun operation => operation.effect isCrashRecoveryOnly path).toList

lemma effects_append (c : Bool) (f s : List WalRecord) (path : String) :
    effects c (f ++ s) path = effects c f path ++ effects c s path := by
  simp [effects]

/-- Replay of valid records succeeds, keeps skipped paths absent and acts on every path
by its effects there. -/
lemma replay_effects {rs : List WalRecord} (hi : r.Intact) (hv : ∀ rec ∈ rs, rec.Valid) :
    ∃ e, replay c r rs = .ok e ∧ e.Intact ∧
      ∀ path, e.files path = applyAll (effects c rs path) (r.files path) := by
  induction rs generalizing r with
  | nil => exact ⟨r, rfl, hi, fun path => rfl⟩
  | cons rec rest ih =>
    obtain ⟨o, ho⟩ := isSome_iff_exists.mp (hv rec mem_cons_self)
    obtain ⟨n, hred, ha⟩ := redo_affects hi ho
    obtain ⟨e, hr, hre, hf⟩ := ih ha.intact fun rec hm => hv rec (mem_cons_of_mem _ hm)
    refine ⟨e, ?_, hre, fun path => ?_⟩
    · rw [replay, foldlM_cons, ExceptLoop.bind_ok hred]
      exact hr
    · rw [hf, ha.files, ← applyAll_append]
      simp [effects, ho]

/-- Recovery that stops anywhere in a stretch of the log and starts the stretch again with
an empty skip set ends with the files of a recovery that never stopped. Throughout, the
paths of the skip set have no file. -/
theorem replay_restart (isCrashRecoveryOnly : Bool) (files : String → Option Bytes)
    {first second done : List WalRecord} (hvalid : ∀ record ∈ first ++ second, record.Valid)
    (hdone : done <+: second) :
    ∃ straight stopped resumed : Replica,
      replay isCrashRecoveryOnly (.booted files) (first ++ second) = .ok straight ∧
      replay isCrashRecoveryOnly (.booted files) (first ++ done) = .ok stopped ∧
      replay isCrashRecoveryOnly (.booted stopped.files) second = .ok resumed ∧
      resumed.files = straight.files ∧ straight.Intact ∧ stopped.Intact ∧ resumed.Intact := by
  obtain ⟨rest, rfl⟩ := hdone
  have hb := intact_booted files
  obtain ⟨straight, hs, hi, hf⟩ := replay_effects hb hvalid
  have hbe : ∀ record ∈ first ++ done, record.Valid := by
    intro record hm
    apply hvalid record
    simp only [mem_append] at hm ⊢
    tauto
  have ha : ∀ record ∈ done ++ rest, record.Valid := fun record hm =>
    hvalid record (mem_append_right _ hm)
  obtain ⟨stopped, hst, hi', hf'⟩ := replay_effects hb hbe
  obtain ⟨resumed, hr, hi'', hf''⟩ := replay_effects (intact_booted stopped.files) ha
  refine ⟨straight, stopped, resumed, hs, hst, hr, ?_, hi, hi', hi''⟩
  funext path
  rw [hf'', hf]
  simp only [booted, hf', effects_append, applyAll_append, applyAll_idempotent]

/-- A directory removed, a file of it written again and deleted, and one truncated away. -/
def removals : List WalRecord :=
  [logWriteFile "d/t" 0 [7], logDeleteDirectory "d", logWriteFile "d/t" 3 [8],
    logWriteFile "d/t" 0 [1, 2],
    { info := deleteFiles.toInfo
      data := leBytes 4 1 ++ leBytes 4 7 ++ leBytes 4 3 ++ utf8 "d/t" },
    logWriteFile "e/u" 0 [3], logTruncate "e"]

/-- A recovery that stops after it has removed the file that it has to write again. -/
theorem replay_restart_removals :
    ∃ straight stopped resumed : Replica,
      replay false (.booted fun _ => none) ([] ++ removals) = .ok straight ∧
      replay false (.booted fun _ => none) ([] ++ removals.take 6) = .ok stopped ∧
      replay false (.booted stopped.files) removals = .ok resumed ∧ resumed.files = straight.files ∧
      straight.Intact ∧ stopped.Intact ∧ resumed.Intact := by
  have hv : removals.all (·.operation.isSome) = true := by decide +kernel
  exact replay_restart false _ (all_eq_true.mp hv) <| take_prefix 6 _

end LagoDB.FileWal
