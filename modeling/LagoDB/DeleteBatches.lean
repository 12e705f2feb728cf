import LagoDB.FileRedo

/-!
# Batches of file deletions

The paths of deleted files are logged in records of bounded size. The writer cuts a batch
when it is full by the number of paths or by their encoded size; the vacuum report
predicts the number of records without building them. Both follow one packing of the
paths that fit into a record.
-/
namespace LagoDB.FileWal

open ByteCodec List Option IcebergWalOp DeleteFilesHeader ExceptLoop

/-! ## The writer -/

/-- One entry of the payload: the length of the path and its bytes. -/
def encodePath (path : String) : Bytes :=
  leBytes 4 (utf8 path).length ++ utf8 path

variable (paths : List String)

def encodePaths : Bytes :=
  paths.flatMap encodePath

/-- The main data of a DELETE_FILES record. -/
def encodeDeleteFiles (pathCount : ℕ) (payload : Bytes) : Bytes :=
  let header : DeleteFilesHeader := { pathCount, payloadLen := payload.length }
  header.bytes ++ payload

/-- The payload length has to fit its field. -/
def insertDeleteFilesRecord (pathCount : ℕ) (payload : Bytes) : Except WalRmgrError WalRecord :=
  if payload.length < 2 ^ 32 then
    .ok { info := toInfo .deleteFiles, data := encodeDeleteFiles pathCount payload }
  else .error .memoryFault

/-- The state of the loop of `log_delete_files`. -/
structure DeleteLog where
  payload : Bytes
  pathCount : ℕ
  records : List WalRecord
deriving DecidableEq

open DeleteLog

variable (log : DeleteLog)

def DeleteLog.insert : Except WalRmgrError DeleteLog := do
  let record ← insertDeleteFilesRecord log.pathCount log.payload
  return { payload := [], pathCount := 0, records := log.records ++ [record] }

/-- Room for one more entry, if need be after closing the batch. -/
def DeleteLog.makeRoom (encodedLen : ℕ) : Except WalRmgrError DeleteLog :=
  if 0 < log.pathCount && (maxDeleteFilesPerRecord ≤ log.pathCount ||
      maxDeleteFilesPayloadBytes < log.payload.length + encodedLen) then
    log.insert
  else .ok log

def DeleteLog.add (path : String) : Except WalRmgrError DeleteLog :=
  let pathLen := (utf8 path).length
  let encodedLen := 4 + pathLen
  if (utf8 path).isEmpty || hasNul path then .ok log
  else if 2 ^ 32 ≤ pathLen then .ok log
  else if maxDeleteFilesPayloadBytes < encodedLen then .ok log
  else do
    let log ← log.makeRoom encodedLen
    return { log with
      payload := log.payload ++ leBytes 4 pathLen ++ utf8 path
      pathCount := log.pathCount + 1 }

def logDeleteFiles : Except WalRmgrError (List WalRecord) := do
  let log ← paths.foldlM add { payload := [], pathCount := 0, records := [] }
  if 0 < log.pathCount then
    return (← log.insert).records
  else
    return log.records

def deleteFileFitsWal (path : String) : Bool :=
  !(utf8 path).isEmpty && !hasNul path && (utf8 path).length < 2 ^ 32 &&
    4 + (utf8 path).length ≤ maxDeleteFilesPayloadBytes

/-- The records of a post-commit deletion. -/
def logLocalDeleteWal : Except WalRmgrError (List WalRecord) :=
  logDeleteFiles (paths.filter deleteFileFitsWal)

/-! ## The prediction -/

inductive IcebergVacuumError
  | resourceLimit (message : String)
deriving DecidableEq

/-- An addition of 64-bit counters. -/
def checkedAdd (message : String) (left right : ℕ) : Except IcebergVacuumError ℕ :=
  if left + right < 2 ^ 64 then .ok (left + right) else .error (.resourceLimit message)

/-- The state of the loop of `local_wal_batch_count`. -/
structure BatchCount where
  batches : ℕ
  batchPaths : ℕ
  payloadBytes : ℕ
deriving DecidableEq

variable (count : BatchCount)

def BatchCount.close : Except IcebergVacuumError BatchCount := do
  let batches ← checkedAdd "DELETE_FILES WAL batch count overflow" count.batches 1
  return { batches, batchPaths := 0, payloadBytes := 0 }

def BatchCount.makeRoom (encoded : ℕ) :
    Except IcebergVacuumError BatchCount :=
  if 0 < count.batchPaths && (maxDeleteFilesPerRecord ≤ count.batchPaths ||
      2 ^ 64 ≤ count.payloadBytes + encoded ||
      maxDeleteFilesPayloadBytes < count.payloadBytes + encoded) then
    count.close
  else .ok count

def BatchCount.add (path : String) :
    Except IcebergVacuumError BatchCount := do
  let encoded ← checkedAdd "DELETE_FILES WAL payload size overflow" 4 (utf8 path).length
  let count ← count.makeRoom encoded
  let payloadBytes ←
    checkedAdd "DELETE_FILES WAL payload size overflow" count.payloadBytes encoded
  return { count with batchPaths := count.batchPaths + 1, payloadBytes }

def localWalBatchCount : Except IcebergVacuumError ℕ := do
  let count ← (paths.filter deleteFileFitsWal).foldlM BatchCount.add
    { batches := 0, batchPaths := 0, payloadBytes := 0 }
  if 0 < count.batchPaths then
    checkedAdd "DELETE_FILES WAL batch count overflow" count.batches 1
  else
    return count.batches

/-! ## The packing -/

structure IsBatch (paths : List String) : Prop where
  nonempty : 0 < paths.length
  count : paths.length ≤ maxDeleteFilesPerRecord
  payload : (encodePaths paths).length ≤ maxDeleteFilesPayloadBytes
  fits : ∀ path ∈ paths, deleteFileFitsWal path = true

/-- Paths distributed over records: the full batches and the one being filled. -/
structure Packing where
  finished : List (List String)
  current : List String

open Packing

def Packing.isFull (packing : Packing) (path : String) : Bool :=
  0 < packing.current.length && (maxDeleteFilesPerRecord ≤ packing.current.length ||
    maxDeleteFilesPayloadBytes < (encodePaths packing.current).length + (encodePath path).length)

def Packing.add (packing : Packing) (path : String) : Packing :=
  if packing.isFull path then
    { finished := packing.finished ++ [packing.current], current := [path] }
  else { packing with current := packing.current ++ [path] }

def Packing.start : Packing :=
  { finished := [], current := [] }

def Packing.batches (packing : Packing) : List (List String) :=
  if 0 < packing.current.length then packing.finished ++ [packing.current]
  else packing.finished

structure Packing.WellFormed (packing : Packing) : Prop where
  finished : ∀ batch ∈ packing.finished, IsBatch batch
  current : packing.current = [] ∨ IsBatch packing.current

@[simp] lemma length_encodePath (path : String) :
    (encodePath path).length = 4 + (utf8 path).length := by
  simp [encodePath]

attribute [local simp] encodePaths

lemma encodePaths_append (f s : List String) :
    encodePaths (f ++ s) = encodePaths f ++ encodePaths s := by
  simp

@[simp] lemma encodePaths_singleton (path : String) : encodePaths [path] = encodePath path := by
  simp

variable {packing : Packing} {path : String}

lemma Packing.add_full (h : packing.isFull path = true) : packing.add path =
      { finished := packing.finished ++ [packing.current], current := [path] } := by
  rw [add, if_pos h]

lemma Packing.add_room (h : packing.isFull path = false) :
    packing.add path = { packing with current := packing.current ++ [path] } := by
  rw [add, if_neg (by simp [h])]

lemma deleteFileFitsWal_iff :
    deleteFileFitsWal path = true ↔ (utf8 path).isEmpty = false ∧ hasNul path = false ∧
      (utf8 path).length < 2 ^ 32 ∧ 4 + (utf8 path).length ≤ maxDeleteFilesPayloadBytes := by
  simp [deleteFileFitsWal, and_assoc]

lemma isBatch_singleton (h : deleteFileFitsWal path = true) : IsBatch [path] := by
  obtain ⟨-, -, -, hl⟩ := deleteFileFitsWal_iff.mp h
  exact ⟨by simp, by simp [maxDeleteFilesPerRecord], by simpa using hl, by simpa using h⟩

lemma Packing.WellFormed.isBatch_of_pos (h : packing.WellFormed)
    (hp : 0 < packing.current.length) : IsBatch packing.current := by
  rcases h.current with hnil | hb
  · simp [hnil] at hp
  · exact hb

open Packing

lemma Packing.isFull_pos (h : packing.isFull path = true) : 0 < packing.current.length := by
  simp only [isFull, Bool.and_eq_true, decide_eq_true_eq] at h
  exact h.1

lemma Packing.WellFormed.add (h : packing.WellFormed) (hp : deleteFileFitsWal path = true) :
    (packing.add path).WellFormed := by
  cases hf : packing.isFull path with
  | true =>
    have hc := h.isBatch_of_pos (isFull_pos hf)
    rw [add_full hf]
    constructor
    · intro b hb
      rcases mem_append.mp hb with hm | hm
      · exact h.finished b hm
      · rwa [mem_singleton.mp hm]
    · exact .inr (isBatch_singleton hp)
  | false =>
    rw [add_room hf]
    refine ⟨h.finished, .inr ?_⟩
    rcases h.current with hnil | hb
    · simpa [hnil] using isBatch_singleton hp
    · have hpos := hb.nonempty
      simp only [isFull, Bool.and_eq_false_iff, Bool.or_eq_false_iff, decide_eq_false_iff_not] at hf
      refine ⟨by simp, ?_, ?_, ?_⟩
      · simp only [length_append, length_singleton]
        omega
      · simp only [encodePaths_append, encodePaths_singleton, length_append]
        omega
      · intro o ho
        rcases mem_append.mp ho with hm | hm
        · exact hb.fits o hm
        · rwa [mem_singleton.mp hm]

lemma Packing.WellFormed.batches (h : packing.WellFormed) : ∀ b ∈ packing.batches, IsBatch b := by
  intro b hb
  by_cases hpos : 0 < packing.current.length
  · rw [Packing.batches, if_pos hpos] at hb
    rcases mem_append.mp hb with hm | hm
    · exact h.finished b hm
    · rw [mem_singleton.mp hm]
      exact h.isBatch_of_pos hpos
  · rw [Packing.batches, if_neg hpos] at hb
    exact h.finished b hb

variable (p : Packing)

lemma Packing.batches_flatten : p.batches.flatten = p.finished.flatten ++ p.current := by
  by_cases hpos : 0 < p.current.length
  · simp [batches, hpos]
  · have hnil : p.current = [] := length_eq_zero_iff.mp (by omega)
    simp [batches, hnil]

lemma Packing.add_flatten (path : String) :
    (p.add path).finished.flatten ++ (p.add path).current =
      p.finished.flatten ++ p.current ++ [path] := by
  unfold add
  split <;> simp

variable {ts : List String}

lemma Packing.foldl_add (h : packing.WellFormed) (hp : ∀ path ∈ ts, deleteFileFitsWal path = true) :
    (ts.foldl add packing).WellFormed ∧
      (ts.foldl add packing).finished.flatten ++ (ts.foldl add packing).current =
      packing.finished.flatten ++ packing.current ++ ts := by
  induction ts generalizing packing with
  | nil => simpa using h
  | cons path r ih =>
    obtain ⟨hw, hf⟩ := ih (h.add (hp path mem_cons_self)) fun o hm => hp o (mem_cons_of_mem _ hm)
    refine ⟨hw, ?_⟩
    rw [foldl_cons, hf, add_flatten]
    simp

/-! ## The writer and the prediction follow the packing -/

def batchRecord (batch : List String) : WalRecord :=
  { info := toInfo .deleteFiles
    data := encodeDeleteFiles batch.length (encodePaths batch) }

def Packing.deleteLog (packing : Packing) : DeleteLog :=
  { payload := encodePaths packing.current
    pathCount := packing.current.length
    records := packing.finished.map batchRecord }

lemma IsBatch.insert (h : IsBatch packing.current) : packing.deleteLog.insert =
      .ok { payload := [], pathCount := 0
            records := (packing.finished ++ [packing.current]).map batchRecord } := by
  have hlen : (encodePaths packing.current).length < 2 ^ 32 :=
    Nat.lt_of_le_of_lt h.payload (by decide)
  have hr : insertDeleteFilesRecord packing.deleteLog.pathCount packing.deleteLog.payload =
      .ok (batchRecord packing.current) := by
    simp only [deleteLog]
    rw [insertDeleteFilesRecord, if_pos hlen]
    rfl
  rw [DeleteLog.insert, bind_ok hr, map_append]
  rfl

attribute [local simp] Except.pure

lemma DeleteLog.add_packing (h : packing.WellFormed) (hpa : deleteFileFitsWal path = true) :
    packing.deleteLog.add path = .ok (packing.add path).deleteLog := by
  obtain ⟨he, hn, hl, hp⟩ := deleteFileFitsWal_iff.mp hpa
  have hr : packing.deleteLog.makeRoom (4 + (utf8 path).length) =
      if packing.isFull path then packing.deleteLog.insert else .ok packing.deleteLog := by
    simp only [makeRoom, isFull, length_encodePath]
    rfl
  simp only [add, he, hn, Bool.or_self, Bool.false_eq_true, if_false,
    if_neg (Nat.not_le.mpr hl), if_neg (Nat.not_lt.mpr hp), hr]
  cases hf : packing.isFull path with
  | true =>
    have hb := h.isBatch_of_pos (isFull_pos hf)
    rw [if_pos rfl, bind_ok hb.insert, add_full hf]
    simp [deleteLog, encodePath, pure]
  | false =>
    rw [if_neg (by simp), bind_ok rfl, add_room hf]
    simp [deleteLog, encodePath, pure]

lemma DeleteLog.add_unfit {log : DeleteLog} (hp : deleteFileFitsWal path = false) :
    log.add path = .ok log := by
  unfold add
  dsimp only
  split
  · rfl
  · rename_i hn
    split
    · rfl
    · rename_i hlen
      split
      · rfl
      · rename_i hpa
        have hf : deleteFileFitsWal path = true := by
          simp only [Bool.not_eq_true, Bool.or_eq_false_iff] at hn
          exact deleteFileFitsWal_iff.mpr ⟨hn.1, hn.2, by omega, by omega⟩
        simp [hp] at hf

/-- The loop of the writer: unfit paths are passed over, the others packed. -/
lemma DeleteLog.foldlM_packing (h : packing.WellFormed) (ps : List String) :
    ps.foldlM add packing.deleteLog =
      .ok ((ps.filter deleteFileFitsWal).foldl Packing.add packing).deleteLog := by
  induction ps generalizing packing with
  | nil => rfl
  | cons path r ih =>
    rw [foldlM_cons]
    cases hp : deleteFileFitsWal path with
    | true =>
      rw [bind_ok (add_packing h hp), ih (h.add hp), filter_cons_of_pos hp, foldl_cons]
    | false => rw [bind_ok (add_unfit hp), ih h, filter_cons_of_neg (by simp [hp])]

def pack : Packing :=
  (paths.filter deleteFileFitsWal).foldl add start

lemma Packing.wellFormed_start : start.WellFormed := ⟨by simp [start], .inl rfl⟩

variable (ps : List String)

lemma pack_spec : (pack ps).WellFormed ∧
      (pack ps).finished.flatten ++ (pack ps).current = ps.filter deleteFileFitsWal := by
  have hf : ∀ path ∈ ps.filter deleteFileFitsWal, deleteFileFitsWal path = true :=
    fun path hm => (mem_filter.mp hm).2
  simpa [pack, start] using foldl_add wellFormed_start hf

lemma logDeleteFiles_pack : logDeleteFiles ps = .ok ((pack ps).batches.map batchRecord) := by
  obtain ⟨hw, -⟩ := pack_spec ps
  have hl : ps.foldlM add { payload := [], pathCount := 0, records := [] } =
      .ok (pack ps).deleteLog := foldlM_packing wellFormed_start ps
  rw [logDeleteFiles, bind_ok hl, batches]
  by_cases hpos : 0 < (pack ps).current.length
  · have hc : 0 < (pack ps).deleteLog.pathCount := hpos
    rw [if_pos hc, if_pos hpos, bind_ok (hw.isBatch_of_pos hpos).insert]
    rfl
  · have hc : ¬ 0 < (pack ps).deleteLog.pathCount := hpos
    rw [if_neg hc, if_neg hpos]
    rfl

lemma pack_filter : pack (ps.filter deleteFileFitsWal) = pack ps := by
  simp [pack]

def Packing.batchCount (packing : Packing) : BatchCount :=
  { batches := packing.finished.length
    batchPaths := packing.current.length
    payloadBytes := (encodePaths packing.current).length }

lemma checkedAdd_ok {m : String} {left right : ℕ} (h : left + right < 2 ^ 64) :
    checkedAdd m left right = .ok (left + right) := by
  rw [checkedAdd, if_pos h]

lemma BatchCount.makeRoom_packing (hp : deleteFileFitsWal path = true)
    (hc : (encodePaths packing.current).length ≤ maxDeleteFilesPayloadBytes) :
    packing.batchCount.makeRoom (4 + (utf8 path).length) =
      if packing.isFull path then packing.batchCount.close else .ok packing.batchCount := by
  obtain ⟨-, -, -, hpa⟩ := deleteFileFitsWal_iff.mp hp
  have hs : ¬ 2 ^ 64 ≤ (encodePaths packing.current).length + (4 + (utf8 path).length) := by
    have hmax : maxDeleteFilesPayloadBytes = 65536 := rfl
    omega
  have ht : (0 < packing.batchCount.batchPaths &&
      (maxDeleteFilesPerRecord ≤ packing.batchCount.batchPaths ||
        2 ^ 64 ≤ packing.batchCount.payloadBytes + (4 + (utf8 path).length) ||
        maxDeleteFilesPayloadBytes < packing.batchCount.payloadBytes + (4 + (utf8 path).length))) =
      packing.isFull path := by
    rw [Bool.eq_iff_iff]
    simp only [isFull, Bool.and_eq_true, Bool.or_eq_true, decide_eq_true_eq]
    simp only [batchCount, length_encodePath]
    omega
  rw [BatchCount.makeRoom, ht]

lemma BatchCount.add_packing (h : packing.WellFormed) (hp : deleteFileFitsWal path = true)
    (hbo : packing.finished.length + 1 < 2 ^ 64) :
    packing.batchCount.add path = .ok (packing.add path).batchCount := by
  obtain ⟨-, -, -, hpa⟩ := deleteFileFitsWal_iff.mp hp
  have hmax : maxDeleteFilesPayloadBytes = 65536 := rfl
  have hc : (encodePaths packing.current).length ≤ maxDeleteFilesPayloadBytes := by
    rcases h.current with hnil | hb
    · simp [hnil]
    · exact hb.payload
  rw [BatchCount.add, bind_ok (checkedAdd_ok (by omega)), BatchCount.makeRoom_packing hp hc]
  cases hf : packing.isFull path with
  | true =>
    have hcl : packing.batchCount.close =
        .ok { batches := packing.finished.length + 1, batchPaths := 0, payloadBytes := 0 } := by
      simp only [BatchCount.close, batchCount]
      rw [bind_ok (checkedAdd_ok hbo)]
      rfl
    rw [if_pos rfl, bind_ok hcl,
      bind_ok (checkedAdd_ok (show 0 + (4 + (utf8 path).length) < 2 ^ 64 by omega)), add_full hf]
    simp [batchCount, pure]
  | false =>
    have hs : packing.batchCount.payloadBytes + (4 + (utf8 path).length) < 2 ^ 64 := by
      show (encodePaths packing.current).length + _ < _
      omega
    rw [if_neg (by simp), bind_ok rfl, bind_ok (checkedAdd_ok hs), add_room hf]
    simp [batchCount, pure]

/-- A path takes at most one new batch, so the counters stay below the number of paths. -/
lemma Packing.add_size (path : String) :
    (p.add path).finished.length + (p.add path).current.length ≤
      p.finished.length + p.current.length + 1 := by
  cases hf : p.isFull path with
  | true =>
    have hpos := isFull_pos hf
    rw [add_full hf]
    simp only [length_append, length_singleton]
    omega
  | false =>
    rw [add_room hf]
    simp only [length_append, length_singleton]
    omega

lemma BatchCount.foldlM_packing (h : packing.WellFormed)
    (hp : ∀ path ∈ ts, deleteFileFitsWal path = true)
    (hb : packing.finished.length + packing.current.length + ts.length < 2 ^ 64) :
    ts.foldlM BatchCount.add packing.batchCount = .ok (ts.foldl Packing.add packing).batchCount ∧
    (ts.foldl Packing.add packing).finished.length +
      (ts.foldl Packing.add packing).current.length < 2 ^ 64 := by
  induction ts generalizing packing with
  | nil => exact ⟨rfl, hb⟩
  | cons path r ih =>
    have hpa := hp path mem_cons_self
    have hs := packing.add_size path
    rw [length_cons] at hb
    rw [foldlM_cons, bind_ok (BatchCount.add_packing h hpa (by omega))]
    exact ih (h.add hpa) (fun o hm => hp o (mem_cons_of_mem _ hm)) (by omega)

lemma localWalBatchCount_pack (hle : ts.length < 2 ^ 64) :
    localWalBatchCount ts = .ok (pack ts).batches.length := by
  have hfi : ∀ path ∈ ts.filter deleteFileFitsWal, deleteFileFitsWal path = true :=
    fun path hm => (mem_filter.mp hm).2
  have hf := length_filter_le deleteFileFitsWal ts
  obtain ⟨hl, hsi⟩ := BatchCount.foldlM_packing wellFormed_start hfi
    (by simp only [start, length_nil]; omega)
  have hl : (ts.filter deleteFileFitsWal).foldlM BatchCount.add
      { batches := 0, batchPaths := 0, payloadBytes := 0 } = .ok (pack ts).batchCount := hl
  rw [localWalBatchCount, bind_ok hl, batches]
  by_cases hpos : 0 < (pack ts).current.length
  · have hc : 0 < (pack ts).batchCount.batchPaths := hpos
    have hs : (pack ts).finished.length + 1 < 2 ^ 64 := by
      rw [pack] at hpos ⊢
      omega
    rw [if_pos hc, if_pos hpos, length_append]
    exact checkedAdd_ok hs
  · have hc : ¬ 0 < (pack ts).batchCount.batchPaths := hpos
    rw [if_neg hc, if_neg hpos]
    rfl

/-! ## The parser -/

@[simp] lemma DeleteFilesHeader.length_bytes (header : DeleteFilesHeader) :
    header.bytes.length = sizeOfDeleteFiles := by
  simp [bytes, sizeOfDeleteFiles]

lemma DeleteFilesHeader.ofBytes_bytes {header : DeleteFilesHeader} (hc : header.pathCount < 2 ^ 32)
    (hl : header.payloadLen < 2 ^ 32) : ofBytes header.bytes = header := by
  have ht : header.bytes.take 4 = leBytes 4 header.pathCount := by simp [bytes]
  have hd : (header.bytes.drop 4).take 4 = leBytes 4 header.payloadLen := by
    rw [bytes, drop_left' (by simp), take_of_length_le (by simp)]
  rw [ofBytes, ht, hd, leNat_leBytes hc, leNat_leBytes hl]

lemma DeleteFilesHeader.bytes_ofBytes {bs : Bytes} (h : bs.length = sizeOfDeleteFiles) :
    (ofBytes bs).bytes = bs := by
  have hsi : bs.length = 8 := h
  have hf : (bs.take 4).length = 4 := by
    rw [length_take]
    omega
  have hs : (bs.drop 4).length = 4 := by
    rw [length_drop]
    omega
  have ha : (bs.drop 4).take 4 = bs.drop 4 := take_of_length_le hs.le
  simp only [bytes, ofBytes, ha, leBytes_of_length hf, leBytes_of_length hs, take_append_drop]

/-- The loop of the parser reads the entries of fitting paths back, whatever is around. -/
lemma readDeletePaths_encode (b a : Bytes) (hf : ∀ path ∈ ts, deleteFileFitsWal path = true) :
    readDeletePaths (b ++ encodePaths ts ++ a) ts.length b.length =
      some (ts, b.length + (encodePaths ts).length) := by
  induction ts generalizing b with
  | nil => simp [readDeletePaths]
  | cons path r ih =>
    obtain ⟨he, hn, hle, -⟩ := deleteFileFitsWal_iff.mp (hf path mem_cons_self)
    have hd : b ++ encodePaths (path :: r) ++ a = b ++ encodePath path ++ encodePaths r ++ a := by
      simp
    have hl : slice (b ++ encodePath path ++ encodePaths r ++ a)
        b.length (b.length + 4) = some (leBytes 4 (utf8 path).length) := by
      have := slice_append b (leBytes 4 (utf8 path).length) (utf8 path ++ encodePaths r ++ a)
      simpa [encodePath] using this
    have hp : slice (b ++ encodePath path ++ encodePaths r ++ a)
        (b.length + 4) (b.length + 4 + (utf8 path).length) = some (utf8 path) := by
      have := slice_append (b ++ leBytes 4 (utf8 path).length) (utf8 path) (encodePaths r ++ a)
      simpa [encodePath] using this
    have hr := ih (b ++ encodePath path) fun o hm => hf o (mem_cons_of_mem _ hm)
    have hend : (b ++ encodePath path).length = b.length + 4 + (utf8 path).length := by
      simp [Nat.add_assoc]
    rw [hend] at hr
    have ho : ((utf8 path).isEmpty || (utf8 path).contains 0) = false := by
      rw [he]
      exact hn
    have hre : leNat (leBytes 4 (utf8 path).length) = (utf8 path).length := leNat_leBytes hle
    rw [hd, length_cons, readDeletePaths]
    simp only [hl, hre, hp, ho, bind_eq_bind, bind_some,
      Bool.false_eq_true, if_false, fromUtf8_utf8, hr]
    simp [Nat.add_assoc]

lemma readDeletePaths_sound {d : Bytes} {n c s : ℕ} (h : readDeletePaths d n c = some (ts, s)) :
    ts.length = n ∧ d.drop c = encodePaths ts ++ d.drop s := by
  induction n generalizing c ts with
  | zero =>
    simp only [readDeletePaths, Option.some.injEq, Prod.mk.injEq] at h
    obtain ⟨rfl, rfl⟩ := h
    simp
  | succ n ih =>
    simp only [readDeletePaths, bind_eq_bind, bind_eq_some_iff] at h
    obtain ⟨ls, hl, ps, hp, h⟩ := h
    obtain ⟨-, h⟩ := ite_none_left_eq_some.mp h
    obtain ⟨path, hu8, ⟨r, l⟩, hr, h⟩ := by simpa only [bind_eq_some_iff] using h
    cases h
    obtain ⟨hc, ht⟩ := ih hr
    obtain ⟨hf, hh⟩ := drop_of_slice hl
    obtain ⟨hs, hm⟩ := drop_of_slice hp
    have hf : ls.length = 4 := by omega
    have hs : ps.length = leNat ls := by omega
    have he : encodePath path = ls ++ ps := by
      rw [encodePath, fromUtf8_eq_some.mp hu8, hs, leBytes_of_length hf]
    refine ⟨by simp [hc], ?_⟩
    rw [hh, hm, ht]
    simp [he]

lemma IsBatch.extract {b : List String} (h : IsBatch b) :
    extractDeleteFilePaths (batchRecord b).data = .ok (some b) := by
  let header : DeleteFilesHeader := { pathCount := b.length, payloadLen := (encodePaths b).length }
  have hd : (batchRecord b).data = header.bytes ++ encodePaths b := rfl
  have hpos := h.nonempty
  have hc := h.count
  have hpa := h.payload
  have hmc : maxDeleteFilesPerRecord = 256 := rfl
  have hmp : maxDeleteFilesPayloadBytes = 65536 := rfl
  have hl : (header.bytes ++ encodePaths b).length =
      sizeOfDeleteFiles + (encodePaths b).length := by simp
  have hr : readUnaligned (header.bytes ++ encodePaths b) sizeOfDeleteFiles = .ok header.bytes := by
    rw [readUnaligned_ok (by omega), take_left' header.length_bytes]
  have hh : ofBytes header.bytes = header := ofBytes_bytes (by show b.length < _; omega)
      (by show (encodePaths b).length < _; omega)
  have ha : ¬ (header.pathCount = 0 || maxDeleteFilesPerRecord < header.pathCount ||
      maxDeleteFilesPayloadBytes < header.payloadLen) = true := by
    simp only [header, Bool.or_eq_true, decide_eq_true_eq]
    omega
  have hp : readDeletePaths (header.bytes ++ encodePaths b) header.pathCount
      sizeOfDeleteFiles = some (b, sizeOfDeleteFiles + header.payloadLen) := by
    have hlo := readDeletePaths_encode header.bytes [] h.fits
    rwa [append_nil] at hlo
  rw [hd, extractDeleteFilePaths, if_neg (by omega), bind_ok hr, hh]
  simp only [if_neg ha, hl, hp]
  simp [header, pure]

/-- The parser reads inside its input only, and what it returns encodes to its input. -/
lemma extractDeleteFilePaths_sound (d : Bytes) : extractDeleteFilePaths d = .ok none ∨
    ∃ ts, extractDeleteFilePaths d = .ok (some ts) ∧
      encodeDeleteFiles ts.length (encodePaths ts) = d := by
  rw [extractDeleteFilePaths]
  by_cases hs : d.length < sizeOfDeleteFiles
  · exact .inl (if_pos hs)
  rw [if_neg hs, bind_ok (readUnaligned_ok (Nat.le_of_not_lt hs))]
  have hsi : (d.take sizeOfDeleteFiles).length = sizeOfDeleteFiles := by
    rw [length_take]
    omega
  have hb := bytes_ofBytes hsi
  generalize ofBytes (d.take sizeOfDeleteFiles) = header at hb ⊢
  dsimp only
  split
  · exact .inl rfl
  split
  · exact .inl rfl
  rename_i hl
  have hl : d.length = sizeOfDeleteFiles + header.payloadLen := by simpa using hl
  cases hlo : readDeletePaths d header.pathCount sizeOfDeleteFiles with
  | none => exact .inl rfl
  | some r =>
    obtain ⟨ts, c⟩ := r
    by_cases he : c = sizeOfDeleteFiles + header.payloadLen
    · subst he
      refine .inr ⟨ts, by simp [pure], ?_⟩
      obtain ⟨hc, hp⟩ := readDeletePaths_sound hlo
      have ha : d.drop sizeOfDeleteFiles = encodePaths ts := by
        rw [hp, drop_of_length_le hl.le, append_nil]
      have hpl : (encodePaths ts).length = header.payloadLen := by
        rw [← ha, length_drop]
        omega
      have hh : (⟨ts.length, (encodePaths ts).length⟩ : DeleteFilesHeader) = header := by
        rw [hc, hpl]
      rw [encodeDeleteFiles, hh, hb, ← ha, take_append_drop]
    · exact .inl (by simp [he, pure])

/-- The records of a list of paths, whichever caller logs them, hold exactly the paths
that fit, in order and within the limits of a record; their number is the predicted one.
The parser accepts every one of them, and any bytes it accepts are an encoding. The
length of a slice is a 64-bit number. -/
theorem logDeleteFiles_roundTrip {paths : List String} (hlength : paths.length < 2 ^ 64) :
    (∃ records batches, logDeleteFiles paths = .ok records ∧ logLocalDeleteWal paths = .ok records ∧
      List.Forall₂ (fun record batch => extractDeleteFilePaths record.data = .ok (some batch))
        records batches ∧ batches.flatten = paths.filter deleteFileFitsWal ∧
      (∀ batch ∈ batches, 1 ≤ batch.length ∧ batch.length ≤ maxDeleteFilesPerRecord ∧
        (encodePaths batch).length ≤ maxDeleteFilesPayloadBytes) ∧
      localWalBatchCount paths = .ok records.length) ∧
    ∀ data, extractDeleteFilePaths data = .ok none ∨
      ∃ paths, extractDeleteFilePaths data = .ok (some paths) ∧
        encodeDeleteFiles paths.length (encodePaths paths) = data := by
  refine ⟨?_, extractDeleteFilePaths_sound⟩
  obtain ⟨hw, hf⟩ := pack_spec paths
  have hb := hw.batches
  refine ⟨(pack paths).batches.map batchRecord, (pack paths).batches, logDeleteFiles_pack paths,
    ?_, ?_, ?_, ?_, ?_⟩
  · rw [logLocalDeleteWal, logDeleteFiles_pack, pack_filter]
  · rw [forall₂_map_left_iff, forall₂_same]
    intro batch hba
    exact (hb batch hba).extract
  · rw [← hf, batches_flatten]
  · intro batch hba
    exact ⟨(hb batch hba).nonempty, (hb batch hba).count, (hb batch hba).payload⟩
  · rw [localWalBatchCount_pack hlength, length_map]

/-- A path that does not fit, and more of those that do than one record takes. -/
theorem logDeleteFiles_twoBatches :
    ∃ records batches, logDeleteFiles ("" :: replicate 300 "a") = .ok records ∧ records.length = 2 ∧
      List.Forall₂ (fun record batch => extractDeleteFilePaths record.data = .ok (some batch))
        records batches ∧ batches.flatten = replicate 300 "a" := by
  obtain ⟨⟨records, batches, hl, -, hp, hf, -, hn⟩, -⟩ :=
    @logDeleteFiles_roundTrip ("" :: replicate 300 "a") (by decide +kernel)
  have htwo : localWalBatchCount ("" :: replicate 300 "a") = .ok 2 := by decide +kernel
  have hfit : ("" :: replicate 300 "a").filter deleteFileFitsWal = replicate 300 "a" := by
    decide +kernel
  exact ⟨records, batches, hl, Except.ok.inj (hn.symm.trans htwo), hp, hf.trans hfit⟩

/-! ## Replaying a deletion -/

variable (c : Bool) (r : Replica)

lemma IsBatch.redo {b : List String} (h : IsBatch b) :
    redo c r (batchRecord b) = .ok (b.foldl Replica.deleteFile r) := by
  have hm : (batchRecord b).mainData = some (batchRecord b).data :=
    if_neg (by simp [batchRecord, encodeDeleteFiles, bytes, leBytes])
  have hi : fromInfo (batchRecord b).info = some .deleteFiles := fromInfo_toInfo .deleteFiles
  simp only [FileWal.redo, hi, redoDeleteFiles, hm, h.extract]
  rfl

lemma replay_batches {a : List (List String)} (h : ∀ b ∈ a, IsBatch b) :
    replay c r (a.map batchRecord) = .ok (a.flatten.foldl Replica.deleteFile r) := by
  induction a generalizing r with
  | nil => rfl
  | cons b rest ih =>
    obtain ⟨hb, hr⟩ := forall_mem_cons.mp h
    rw [flatten_cons, foldl_append, ← ih _ hr, replay, map_cons, foldlM_cons, bind_ok (hb.redo c r)]
    rfl

lemma foldl_deleteFile (path : String) :
    (ts.foldl Replica.deleteFile r).files path = if path ∈ ts then none else r.files path := by
  induction ts generalizing r with
  | nil => simp
  | cons f rest ih =>
    rcases eq_or_ne path f with rfl | hp <;> simp [*, Replica.deleteFile]

/-- Replaying a logged deletion removes the paths that fit a record and no others. -/
theorem replay_logDeleteFiles (isCrashRecoveryOnly : Bool) (replica : Replica)
    (paths : List String) : ∃ records result, logDeleteFiles paths = .ok records ∧
      replay isCrashRecoveryOnly replica records = .ok result ∧ ∀ path, result.files path =
        if path ∈ paths ∧ deleteFileFitsWal path then none else replica.files path := by
  obtain ⟨hw, hf⟩ := pack_spec paths
  refine ⟨_, _, logDeleteFiles_pack paths, replay_batches _ _ hw.batches, fun path => ?_⟩
  rw [foldl_deleteFile, batches_flatten, hf]
  simp only [mem_filter]

end LagoDB.FileWal
