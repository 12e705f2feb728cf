import LagoDB.ByteCodec
import LagoDB.ExceptLoop

/-!
# Records of the local file WAL

The write-ahead log records of the local file storage: how they are built, and how
recovery reads them back. A record is the operation in its info byte and its main data.
Headers are stored in the byte order of the machine, which is little-endian here.
-/
namespace LagoDB.FileWal

open ByteCodec List

/-! ## Records -/

inductive IcebergWalOp
  | deleteDirectory
  | writeFile
  | deleteFiles
  | truncateDirectory
deriving DecidableEq

/-- The discriminant that is stored as the info byte. -/
def IcebergWalOp.toInfo : IcebergWalOp → UInt8
  | .deleteDirectory => 0x00
  | .writeFile => 0x10
  | .deleteFiles => 0x20
  | .truncateDirectory => 0x30

def IcebergWalOp.fromInfo (info : UInt8) : Option IcebergWalOp :=
  match info &&& 0xF0 with
  | 0x00 => some .deleteDirectory
  | 0x10 => some .writeFile
  | 0x20 => some .deleteFiles
  | 0x30 => some .truncateDirectory
  | _ => none

@[simp] lemma IcebergWalOp.fromInfo_toInfo (op : IcebergWalOp) :
    IcebergWalOp.fromInfo op.toInfo = some op := by
  cases op <;> rfl

/-- A record as recovery sees it. -/
structure WalRecord where
  info : UInt8
  data : Bytes
deriving DecidableEq

/-- Recovery gives no main data for a record that has none. -/
def WalRecord.mainData (record : WalRecord) : Option Bytes :=
  if record.data.isEmpty then none else some record.data

inductive WalRmgrError
  | invalidRecord (message : String)
  | unknownOperation (info : UInt8)
  | redoFailed (offset : ℤ) (path : String)
  /-- A read past the end of the record, or an index out of range. -/
  | memoryFault
deriving DecidableEq

/-! ## Headers -/

def sizeOfDirectory : ℕ := 4
def sizeOfDeleteFiles : ℕ := 8
def sizeOfWriteFile : ℕ := 16
def maxDeleteFilesPerRecord : ℕ := 256
def maxDeleteFilesPayloadBytes : ℕ := 64 * 1024

structure DeleteFilesHeader where
  pathCount : ℕ
  payloadLen : ℕ
deriving DecidableEq

structure WriteFileHeader where
  pathLen : ℕ
  offset : ℤ
deriving DecidableEq

def DeleteFilesHeader.bytes (header : DeleteFilesHeader) : Bytes :=
  leBytes 4 header.pathCount ++ leBytes 4 header.payloadLen

def WriteFileHeader.bytes (header : WriteFileHeader) : Bytes :=
  leBytes 4 header.pathLen ++ leBytes 4 0 ++ intBytes 8 header.offset

variable (data : Bytes)

/-- The unchecked read of a header of the given size. -/
def readUnaligned (size : ℕ) : Except WalRmgrError Bytes :=
  if size ≤ data.length then .ok (data.take size) else .error .memoryFault

/-- The slice expression, which panics out of range. -/
def index (start stop : ℕ) : Except WalRmgrError Bytes :=
  match slice data start stop with
  | some part => .ok part
  | none => .error .memoryFault

def DeleteFilesHeader.ofBytes (bytes : Bytes) : DeleteFilesHeader :=
  { pathCount := leNat (bytes.take 4), payloadLen := leNat ((bytes.drop 4).take 4) }

def WriteFileHeader.ofBytes (bytes : Bytes) : WriteFileHeader :=
  { pathLen := leNat (bytes.take 4), offset := leInt ((bytes.drop 8).take 8) }

lemma readUnaligned_ok {data : Bytes} {s : ℕ} (h : s ≤ data.length) :
    readUnaligned data s = .ok (data.take s) := by
  rw [readUnaligned, if_pos h]

lemma index_ok {data p : Bytes} {s stop : ℕ} (h : slice data s stop = some p) :
    index data s stop = .ok p := by
  rw [index, h]

/-! ## Building records -/

variable (path : String)

/-- The record of one directory, for either of the two directory operations. -/
def insertDirectory (op : IcebergWalOp) : WalRecord :=
  { info := op.toInfo
    data := leBytes 4 (utf8 path).length ++ utf8 path }

def logDeleteDirectory : WalRecord :=
  insertDirectory path .deleteDirectory

def logTruncate : WalRecord :=
  insertDirectory path .truncateDirectory

def logWriteFile (offset : ℤ) (data : Bytes) : WalRecord :=
  let header : WriteFileHeader := { pathLen := (utf8 path).length % 2 ^ 32, offset := offset }
  { info := IcebergWalOp.toInfo .writeFile
    data := header.bytes ++ utf8 path ++ data }

/-! ## Reading records -/

def extractDirectoryPath : Except WalRmgrError (Option String) :=
  if data.length < sizeOfDirectory then .ok none
  else do
    let header ← readUnaligned data sizeOfDirectory
    let pathEnd := sizeOfDirectory + leNat header
    if data.length < pathEnd then
      return none
    let pathBytes ← index data sizeOfDirectory pathEnd
    return fromUtf8 pathBytes

def extractWriteFileInfo : Except WalRmgrError (Option (String × ℤ × ℕ)) :=
  if data.length < sizeOfWriteFile then .ok none
  else do
    let header := WriteFileHeader.ofBytes (← readUnaligned data sizeOfWriteFile)
    let pathEnd := sizeOfWriteFile + header.pathLen
    if data.length < pathEnd then
      return none
    let pathBytes ← index data sizeOfWriteFile pathEnd
    match fromUtf8 pathBytes with
    | none => return none
    | some path => return some (path, header.offset, data.length - pathEnd)

/-- The loop over the paths of a DELETE_FILES record. -/
def readDeletePaths (data : Bytes) : ℕ → ℕ → Option (List String × ℕ)
  | 0, cursor => some ([], cursor)
  | count + 1, cursor => do
    let lengthBytes ← slice data cursor (cursor + 4)
    let pathEnd := cursor + 4 + leNat lengthBytes
    let pathBytes ← slice data (cursor + 4) pathEnd
    if pathBytes.isEmpty || pathBytes.contains 0 then none
    else
      let path ← fromUtf8 pathBytes
      let (paths, cursor) ← readDeletePaths data count pathEnd
      some (path :: paths, cursor)

def extractDeleteFilePaths : Except WalRmgrError (Option (List String)) :=
  if data.length < sizeOfDeleteFiles then .ok none
  else do
    let header := DeleteFilesHeader.ofBytes (← readUnaligned data sizeOfDeleteFiles)
    if header.pathCount = 0 || maxDeleteFilesPerRecord < header.pathCount ||
        maxDeleteFilesPayloadBytes < header.payloadLen then
      return none
    let payloadEnd := sizeOfDeleteFiles + header.payloadLen
    if data.length ≠ payloadEnd then
      return none
    match readDeletePaths data header.pathCount sizeOfDeleteFiles with
    | none => return none
    | some (paths, cursor) => return (if cursor = payloadEnd then some paths else none)

/-! ## What is built is read back -/

open WriteFileHeader

@[simp] lemma WriteFileHeader.length_bytes (header : WriteFileHeader) :
    header.bytes.length = sizeOfWriteFile := by
  simp [bytes, sizeOfWriteFile]

lemma WriteFileHeader.ofBytes_bytes {header : WriteFileHeader} (hle : header.pathLen < 2 ^ 32)
    (ho : FitsInt 8 header.offset) : ofBytes header.bytes = header := by
  have ht : header.bytes.take 4 = leBytes 4 header.pathLen := by simp [bytes]
  have hl : (leBytes 4 header.pathLen ++ leBytes 4 0).length = 8 := by simp
  have hd : (header.bytes.drop 8).take 8 = intBytes 8 header.offset := by
    rw [bytes, drop_left' hl, take_of_length_le (by simp)]
  rw [ofBytes, ht, hd, leNat_leBytes hle, leInt_intBytes ho]

lemma extract_logWriteFile {path : String} {o : ℤ} {data : Bytes}
    (hp : (utf8 path).length < 2 ^ 32) (ho : FitsInt 8 o) :
    extractWriteFileInfo (logWriteFile path o data).data = .ok (some (path, o, data.length)) := by
  let header : WriteFileHeader := { pathLen := (utf8 path).length, offset := o }
  let record := header.bytes ++ utf8 path ++ data
  have hr : (logWriteFile path o data).data = record := by
    simp only [logWriteFile, Nat.mod_eq_of_lt hp, record, header]
  have hl : record.length = sizeOfWriteFile + (utf8 path).length + data.length := by
    simp [record, Nat.add_assoc]
  have hre : readUnaligned record sizeOfWriteFile = .ok header.bytes := by
    rw [readUnaligned_ok (by omega)]
    simp only [record, append_assoc, take_left' header.length_bytes]
  have hi : index record sizeOfWriteFile (sizeOfWriteFile + (utf8 path).length) =
      .ok (utf8 path) := by
    exact index_ok (slice_append header.bytes (utf8 path) data)
  rw [hr, extractWriteFileInfo, if_neg (by omega), ExceptLoop.bind_ok hre, ofBytes_bytes hp ho]
  simp only [header]
  rw [if_neg (by omega), ExceptLoop.bind_ok hi]
  simp only [fromUtf8_utf8]
  rw [hl, Nat.add_sub_cancel_left]
  rfl

lemma drop_logWriteFile (o : ℤ) (data : Bytes) :
    (logWriteFile path o data).data.drop
      ((logWriteFile path o data).data.length - data.length) = data := by
  simp only [logWriteFile]
  rw [drop_left']
  simp only [length_append]
  omega

end LagoDB.FileWal
