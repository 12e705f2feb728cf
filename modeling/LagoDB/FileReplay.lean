import LagoDB.FileRedo

/-!
# Replay of the file WAL reproduces the written files

The primary writes files through `PgFileWrite`, which logs every accepted chunk with its
offset. Replaying the log on a replica gives every file its bytes on the primary, as soon
as one byte of it was written.
-/
namespace LagoDB.FileWal

open ByteCodec Function PositionedWrites

/-! ## The writing side -/

/-- An open writer; the path is the key under which the primary keeps it. -/
structure PgFileWrite where
  position : ℕ
  needsWal : Bool

/-- The arguments of one call of `log_write_file`. -/
structure LoggedWrite where
  path : String
  offset : ℕ
  data : Bytes

def LoggedWrite.record (logged : LoggedWrite) : WalRecord :=
  logWriteFile logged.path logged.offset logged.data

/-- The files of the primary, one writer at a time for each, and what was logged. -/
structure Primary where
  files : String → Option Bytes
  writers : String → Option PgFileWrite
  log : List LoggedWrite

open Primary

inductive WriteError
  | invalidInput
  | openFailed (path : String)
  | writeFailed (path : String)
  | notOpen (path : String)
deriving DecidableEq

/-- The operating system refuses longer paths. -/
def pathMax : ℕ := 4096

/-- `PgFileWrite::open_with_wal`: the file is created, or truncated if it exists. -/
def Primary.openWithWal (primary : Primary) (path : String) (needsWal : Bool) :
    Except WriteError Primary :=
  if hasNul path then .error .invalidInput
  else if path.isEmpty || pathMax ≤ (utf8 path).length then .error (.openFailed path)
  else
    .ok { primary with
      files := update primary.files path (some [])
      writers := update primary.writers path (some { position := 0, needsWal }) }

/-- `PgFileWrite::write`, where the file system takes the first `accepted` bytes. File
positions are signed 64-bit offsets. -/
def Primary.write (primary : Primary) (path : String) (buffer : Bytes) (accepted : ℕ) :
    Except WriteError Primary :=
  match primary.writers path with
  | none => .error (.notOpen path)
  | some writer =>
    if buffer.isEmpty then .ok primary
    else if accepted = 0 ∨ buffer.length < accepted ∨ 2 ^ 63 ≤ writer.position + accepted then
      .error (.writeFailed path)
    else
      let data := buffer.take accepted
      .ok
        { files := update primary.files path
            ((primary.files path).map (writeAt · writer.position data))
          writers := update primary.writers path
            (some { writer with position := writer.position + accepted })
          log := primary.log ++
            if writer.needsWal then [{ path, offset := writer.position, data }] else [] }

inductive Call
  | openWithWal (path : String) (needsWal : Bool)
  | write (path : String) (buffer : Bytes) (accepted : ℕ)

def Primary.call (primary : Primary) : Call → Except WriteError Primary
  | .openWithWal path needsWal => primary.openWithWal path needsWal
  | .write path buffer accepted => primary.write path buffer accepted

def Primary.run (primary : Primary) (calls : List Call) : Except WriteError Primary :=
  calls.foldlM call primary

variable (files : String → Option Bytes)

def Primary.start : Primary :=
  { files := files, writers := fun _ => none, log := [] }

def Primary.wal (primary : Primary) : List WalRecord :=
  primary.log.map LoggedWrite.record

/-- No call writes a byte to the file. -/
def Call.Quiet (path : String) (calls : List Call) : Prop :=
  ∀ buffer accepted, .write path buffer accepted ∈ calls → buffer = []

/-! ## What the log says of a file -/

def Openable (path : String) : Prop :=
  hasNul path = false ∧ path.isEmpty = false ∧ (utf8 path).length < pathMax

/-- A logged write whose record holds its path and offset. -/
def LoggedWrite.Fits (logged : LoggedWrite) : Prop :=
  Openable logged.path ∧ logged.offset < 2 ^ 63

variable {primary p next : Primary} {path : String}

lemma LoggedWrite.Fits.operation_record {l : LoggedWrite} (h : l.Fits) :
    l.record.operation = some (.write l.path l.offset l.data) := by
  obtain ⟨⟨hn, hp, hl⟩, ho⟩ := h
  exact operation_logWriteFile (Nat.lt_trans hl (by decide)) hp hn ho

/-- A written file; as soon as a byte of it is logged, the log determines its content. -/
structure Tracked (primary : Primary) (path : String) (writer : PgFileWrite) (content : Bytes) :
    Prop where
  openable : Openable path
  file : primary.files path = some content
  length : content.length = writer.position
  logged : writer.needsWal → 0 < writer.position → ∀ earlier,
    applyAll (effects false primary.wal path) earlier = some content

/-- All logged writes fit their records, and every file with a writer is tracked. -/
structure Recorded (primary : Primary) : Prop where
  fits : ∀ logged ∈ primary.log, logged.Fits
  files : ∀ path writer, primary.writers path = some writer →
    ∃ content, Tracked primary path writer content

lemma openWithWal_cases {needsWal : Bool} (h : p.openWithWal path needsWal = .ok next) :
    Openable path ∧ next = { p with
      files := update p.files path (some [])
      writers := update p.writers path (some { position := 0, needsWal }) } := by
  unfold openWithWal at h
  split_ifs at h with hn ho
  cases h
  simp only [Bool.or_eq_true, decide_eq_true_eq, not_or, Nat.not_le] at ho
  exact ⟨⟨by simpa using hn, by simpa using ho.1, ho.2⟩, rfl⟩

lemma write_cases {b : Bytes} {a : ℕ} (h : p.write path b a = .ok next) :
    next = p ∨ b ≠ [] ∧
    ∃ w data, p.writers path = some w ∧ 0 < data.length ∧
      w.position + data.length < 2 ^ 63 ∧
      next =
        { files := update p.files path
            ((p.files path).map (writeAt · w.position data))
          writers := update p.writers path
            (some { w with position := w.position + data.length })
          log := p.log ++
            if w.needsWal then [{ path, offset := w.position, data }] else [] } := by
  unfold write at h
  cases hw : p.writers path with
  | none => simp [hw] at h
  | some w =>
    simp only [hw] at h
    by_cases he : b.isEmpty
    · rw [if_pos he] at h
      exact .inl (Except.ok.inj h).symm
    · rw [if_neg he] at h
      by_cases hr : a = 0 ∨ b.length < a ∨ 2 ^ 63 ≤ w.position + a
      · rw [if_pos hr] at h
        cases h
      · rw [if_neg hr] at h
        have hl : (b.take a).length = a := by
          rw [List.length_take]
          omega
        refine .inr ⟨by simpa using he, w, b.take a, rfl, by omega, by omega, ?_⟩
        rw [hl]
        exact (Except.ok.inj h).symm

variable {replica : Replica}

lemma Recorded.openWithWal {needsWal : Bool} (h : Recorded p)
    (hope : p.openWithWal path needsWal = .ok next) : Recorded next := by
  obtain ⟨ho, rfl⟩ := openWithWal_cases hope
  refine ⟨h.fits, fun o w hw => ?_⟩
  by_cases hoth : o = path
  · subst hoth
    simp only [update_self, Option.some.injEq] at hw
    subst hw
    exact ⟨[], ho, by simp, rfl, fun _ hp => absurd hp (Nat.lt_irrefl 0)⟩
  · simp only [update_of_ne hoth] at hw
    obtain ⟨c, ho', hf, hl, hlo⟩ := h.files o w hw
    exact ⟨c, ho', by simpa [update_of_ne hoth] using hf, hl, hlo⟩

lemma Tracked.write {w : PgFileWrite} {c d : Bytes}
    (h : Tracked p path w c) (hw : w.needsWal = true) (e : Option Bytes) :
    applyAll (effects false p.wal path ++ [chunkEffect w.position d]) e = some (c ++ d) := by
  rw [applyAll_append]
  by_cases hz : w.position = 0
  · have hnil : c = [] := List.length_eq_zero_iff.mp (h.length.trans hz)
    simp [hz, hnil, chunkEffect, applyAll, Effect.apply]
  · rw [h.logged hw (Nat.pos_of_ne_zero hz)]
    rw [chunkEffect, if_neg hz, ← h.length]
    simp [applyAll, Effect.apply, writeAt_length]

/-- A write logs nothing of another file, and nothing at all without a byte. -/
lemma Recorded.effects_write {buffer : Bytes} {a : ℕ} {other : String} (h : Recorded p)
    (hwr : p.write path buffer a = .ok next) (ho : other = path → buffer = []) :
    effects false next.wal other = effects false p.wal other := by
  obtain rfl | ⟨hne, w, data, hw, -, hb, rfl⟩ := write_cases hwr
  · rfl
  obtain ⟨c, ht⟩ := h.files path w hw
  have hf : LoggedWrite.Fits { path, offset := w.position, data } :=
    ⟨ht.openable, Nat.lt_of_le_of_lt (Nat.le_add_right _ _) hb⟩
  have hother : other ≠ path := fun he => hne (ho he)
  cases w.needsWal <;>
    simp [wal, effects, hf.operation_record, Operation.effect, hother]

lemma Recorded.write {buffer : Bytes} {a : ℕ} (h : Recorded p)
    (hwr : p.write path buffer a = .ok next) : Recorded next := by
  have hother (o : String) := @effects_write _ _ _ _ _ o h hwr
  obtain rfl | ⟨-, w, data, hw, hp, hb, rfl⟩ := write_cases hwr
  · exact h
  obtain ⟨c, ht⟩ := h.files path w hw
  have hf : LoggedWrite.Fits { path, offset := w.position, data } :=
    ⟨ht.openable, Nat.lt_of_le_of_lt (Nat.le_add_right _ _) hb⟩
  refine ⟨fun l hl => ?_, fun o w' hw' => ?_⟩
  · rcases List.mem_append.mp hl with hm | hm
    · exact h.fits l hm
    · cases hwa : w.needsWal <;> simp [hwa] at hm
      rwa [hm]
  · by_cases ho : o = path
    · subst ho
      simp only [update_self, Option.some.injEq] at hw'
      subst hw'
      refine ⟨c ++ data, ht.openable, ?_, by simp [ht.length], ?_⟩
      · simp [ht.file, ← ht.length, writeAt_length]
      · intro hwa _ e
        have hwa : w.needsWal = true := hwa
        rw [← ht.write hwa e]
        simp [wal, hwa, effects, hf.operation_record, Operation.effect]
    · simp only [update_of_ne ho] at hw'
      obtain ⟨c', hope, hfi, hle, hl⟩ := h.files o w' hw'
      refine ⟨c', hope, by simpa [update_of_ne ho] using hfi, hle, fun hwa hp e => ?_⟩
      rw [← hl hwa hp e, hother o (absurd · ho)]

/-! ## Whole runs -/

lemma Recorded.call {c : Call} (h : Recorded p) (hc : p.call c = .ok next) : Recorded next := by
  cases c with
  | openWithWal path n => exact h.openWithWal hc
  | write path b a => exact h.write hc

lemma Recorded.run {cs : List Call} (h : Recorded p) (hr : p.run cs = .ok next) : Recorded next :=
  ExceptLoop.foldlM_eq_ok (I := fun _ => Recorded) (fun _ _ _ _ _ h hc => h.call hc) [] h hr

/-- Opening a file and calls that write no byte to it leave no trace of it in the log. -/
lemma Recorded.effects_run {calls : List Call} (h : Recorded p) (hr : p.run calls = .ok next)
    (hq : Call.Quiet path calls) : effects false next.wal path = effects false p.wal path := by
  induction calls generalizing p with
  | nil =>
    cases hr
    rfl
  | cons call rest ih =>
    obtain ⟨mid, hc, hr⟩ := ExceptLoop.bind_eq_ok hr
    rw [ih (h.call hc) hr fun buffer a hm => hq buffer a (List.mem_cons_of_mem call hm)]
    cases call with
    | openWithWal other needsWal =>
      obtain ⟨-, rfl⟩ := openWithWal_cases hc
      rfl
    | write other buffer a =>
      refine h.effects_write hc fun he => hq buffer a ?_
      rw [he]
      exact List.mem_cons_self

lemma recorded_start : Recorded (.start files) := ⟨by simp [start], by simp [start]⟩

lemma Recorded.replays (e : String → Option Bytes) (h : Recorded primary) :
    ∃ r, replay false (.booted e) primary.wal = .ok r ∧
      ∀ path, r.files path = applyAll (effects false primary.wal path) (e path) := by
  have hv : ∀ record ∈ primary.wal, record.Valid := by
    intro record hm
    obtain ⟨l, hl, rfl⟩ := List.mem_map.mp hm
    rw [WalRecord.Valid, (h.fits l hl).operation_record]
    rfl
  obtain ⟨r, hre, -, hf⟩ := replay_effects (Replica.intact_booted e) hv
  exact ⟨r, hre, hf⟩

/-- Whatever the primary writes and however the records of its files interleave, replaying
them over any earlier files succeeds and gives every file of which its writer logged a byte
the content it has on the primary. Every record reads back as what it was built from. From
the moment on that a file gets no byte any more, opened again or not, the replica keeps what
it had at that path. -/
theorem Primary.run_replays (files earlier : String → Option Bytes) {calls : List Call}
    {primary : Primary} (hrun : (start files).run calls = .ok primary) :
    ∃ result, replay false (.booted earlier) primary.wal = .ok result ∧
      (∀ path writer, primary.writers path = some writer → writer.needsWal = true →
        0 < writer.position →
        ∃ content, primary.files path = some content ∧ result.files path = some content) ∧
      (∀ logged ∈ primary.log, extractWriteFileInfo logged.record.data =
          .ok (some (logged.path, logged.offset, logged.data.length)) ∧
        logged.record.data.drop (logged.record.data.length - logged.data.length) = logged.data) ∧
      ∀ before after mid path, before ++ after = calls →
        (start files).run before = .ok mid → Call.Quiet path after →
        ∃ kept, replay false (.booted earlier) mid.wal = .ok kept ∧
          result.files path = kept.files path := by
  have hr : Recorded primary := (recorded_start files).run hrun
  obtain ⟨result, hre, hf⟩ := hr.replays earlier
  refine ⟨result, hre, fun path writer hw hwa hpos => ?_, fun logged hm => ?_,
    fun before after mid path hc hb hq => ?_⟩
  · obtain ⟨content, ht⟩ := hr.files path writer hw
    exact ⟨content, ht.file, (hf path).trans (ht.logged hwa hpos _)⟩
  · obtain ⟨⟨-, -, hlen⟩, ho⟩ := hr.fits logged hm
    have hfi : FitsInt 8 logged.offset := by constructor <;> omega
    exact ⟨extract_logWriteFile (Nat.lt_trans hlen (by decide)) hfi, drop_logWriteFile ..⟩
  · have hmid : Recorded mid := (recorded_start files).run hb
    obtain ⟨kept, hk, hkf⟩ := hmid.replays earlier
    have ha : mid.run after = .ok primary := by
      rw [← hc, run, List.foldlM_append] at hrun
      exact (ExceptLoop.bind_ok hb).symm.trans hrun
    exact ⟨kept, hk, by rw [hf, hkf, hmid.effects_run ha hq]⟩

/-- Two files written in turns over earlier copies, and one that gets no byte. -/
theorem Primary.turns_replay :
    ∃ primary result, (start fun _ => none).run
        [.openWithWal "a" true, .openWithWal "b" true, .openWithWal "c" true,
          .write "a" [1, 2, 3] 2, .write "b" [7] 1, .write "a" [3] 1] = .ok primary ∧
      replay false (.booted fun _ => some [9, 9, 9, 9]) primary.wal = .ok result ∧
      primary.files "a" = some [1, 2, 3] ∧ result.files "a" = some [1, 2, 3] ∧
      result.files "c" = some [9, 9, 9, 9] := by
  have hru : ∃ primary, (start fun _ => none).run
      [.openWithWal "a" true, .openWithWal "b" true, .openWithWal "c" true, .write "a" [1, 2, 3] 2,
        .write "b" [7] 1, .write "a" [3] 1] = .ok primary ∧
      primary.files "a" = some [1, 2, 3] ∧
      primary.writers "a" = some { position := 3, needsWal := true } := ⟨_, rfl, rfl, rfl⟩
  obtain ⟨primary, hru, hf, hw⟩ := hru
  obtain ⟨result, hr, hco, -, hq⟩ :=
    run_replays (fun _ => none) (fun _ => some [9, 9, 9, 9]) hru
  obtain ⟨c, hc, hcop⟩ := hco "a" _ hw rfl (by decide)
  obtain ⟨kept, hk, hkept⟩ := hq [] _ _ "c" rfl rfl (by simp [Call.Quiet])
  cases hk
  exact ⟨primary, result, hru, hr, hf, by rw [hcop, ← hc, hf], hkept⟩

/-- A file that is opened and gets no byte leaves no record: the replica keeps what it had. -/
theorem Primary.empty_file_not_replayed :
    ∃ primary result,
      (start fun _ => none).run [.openWithWal "a" true, .write "a" [] 0] = .ok primary ∧
      replay false (.booted fun _ => some [9]) primary.wal = .ok result ∧
      primary.files "a" = some [] ∧ result.files "a" = some [9] :=
  ⟨_, _, rfl, rfl, rfl, rfl⟩

end LagoDB.FileWal
