import LagoDB.RowRegistry

/-!
# Row identities as item pointers

PostgreSQL carries the identity of a row as an item pointer. A physical row packs
its file id and position into 47 bits and spreads them over the block number and
the non-zero offsets; the top quarter of the block numbers belongs to the rows kept
for AFTER triggers.
-/
namespace LagoDB.RowClaims

/-- PostgreSQL's item pointer: a `u32` block number and a `u16` offset. -/
structure ItemPointer where
  blockNumber : ℕ
  offset : ℕ
  block_lt : blockNumber < 2 ^ 32
  offset_lt : offset < 2 ^ 16
  deriving DecidableEq

def offsetBase : ℕ := 65535

def triggerRowBlockBase : ℕ := 0xC0000000

inductive RowIdentityError where
  | rowIdentityLimitExceeded
  | invariantViolated (message : String)
  deriving DecidableEq

structure IcebergRowIdentity where
  fileId : IcebergFileId
  rowPosition : ℕ
  deriving DecidableEq

namespace IcebergRowIdentity

def positionBits : ℕ := 30

def maxPosition : ℕ := 1 <<< positionBits - 1

def fileMask : ℕ := 1 <<< icebergFileIdBits - 1

def positionMask : ℕ := 1 <<< positionBits - 1

def payloadLimit : ℕ := 1 <<< (icebergFileIdBits + positionBits)

def payload (fileId : IcebergFileId) (position : ℕ) : ℕ := fileId.raw <<< positionBits ||| position

/-- Both casts truncate. -/
def encode (fileId : IcebergFileId) (position : ℕ) : Except RowIdentityError ItemPointer :=
  if maxPosition < position then .error .rowIdentityLimitExceeded
  else .ok
    { blockNumber := payload fileId position / offsetBase % 2 ^ 32
      offset := (payload fileId position % offsetBase + 1) % 2 ^ 16
      block_lt := Nat.mod_lt _ (by decide)
      offset_lt := Nat.mod_lt _ (by decide) }

def notPhysical : RowIdentityError :=
  .invariantViolated "ctid is not an Iceberg physical row identity"

lemma and_fileMask_lt (n : ℕ) : n &&& fileMask < maxIcebergFiles := Nat.and_lt_two_pow n (by decide)

def decode (tid : ItemPointer) : Except RowIdentityError IcebergRowIdentity :=
  if tid.offset = 0 ∨ triggerRowBlockBase ≤ tid.blockNumber then .error notPhysical
  else
    let payload := tid.blockNumber * offsetBase + (tid.offset - 1)
    if payloadLimit ≤ payload then .error notPhysical
    else .ok
      { fileId := ⟨payload >>> positionBits &&& fileMask, and_fileMask_lt _⟩
        rowPosition := payload &&& positionMask }

end IcebergRowIdentity

namespace TriggerRowId

def maxTriggerRowToken : ℕ := (2 ^ 32 - 1 - triggerRowBlockBase + 1) * offsetBase

/-- The identity of a token and the next token; the checked conversions of the
source are the bounds of the item pointer. -/
def allocate (token : ℕ) : Except String (ItemPointer × ℕ) :=
  if maxTriggerRowToken ≤ token then
    .error "LagoDB AFTER-trigger row identity space was exhausted"
  else if hblock : triggerRowBlockBase + token / offsetBase < 2 ^ 32 then
    if hoffset : token % offsetBase + 1 < 2 ^ 16 then
      .ok (⟨triggerRowBlockBase + token / offsetBase, token % offsetBase + 1, hblock, hoffset⟩,
        token + 1)
    else .error "trigger-row offset overflow"
  else .error "trigger-row block number overflow"

def isEncoded (rowId : ItemPointer) : Bool :=
  rowId.offset ≠ 0 && triggerRowBlockBase ≤ rowId.blockNumber

lemma isEncoded_allocate {t next : ℕ} {r : ItemPointer}
    (h : allocate t = .ok (r, next)) : isEncoded r = true := by
  unfold allocate at h
  split_ifs at h
  cases h
  simp [isEncoded]

end TriggerRowId

namespace IcebergRowIdentity

lemma payload_eq (f : IcebergFileId) {p : ℕ} (h : p < 2 ^ 30) :
    payload f p = f.raw * 2 ^ 30 + p := by
  rw [payload, positionBits, ← Nat.shiftLeft_add_eq_or_of_lt h, Nat.shiftLeft_eq]

lemma payload_lt (f : IcebergFileId) {p : ℕ} (h : p < 2 ^ 30) : payload f p < 2 ^ 47 := by
  have hv : f.raw < 2 ^ 17 := f.valid
  rw [payload_eq f h]
  omega

variable {f : IcebergFileId} {p : ℕ} {tid : ItemPointer}

lemma encode_eq_ok : encode f p = .ok tid ↔ p < 2 ^ 30 ∧ 0 < tid.offset ∧
      tid.blockNumber * offsetBase + (tid.offset - 1) = payload f p := by
  have hmax : maxPosition = 2 ^ 30 - 1 := by decide
  unfold encode
  split_ifs with h
  · simp only [false_iff]
    omega
  · have hp : p < 2 ^ 30 := by omega
    have hpa := payload_lt f hp
    obtain ⟨b, o, hb, hbo⟩ := tid
    simp only [Except.ok.injEq, ItemPointer.mk.injEq, offsetBase, hp, true_and]
    omega

lemma decode_eq_ok {i : IcebergRowIdentity} :
    decode tid = .ok i ↔ i.rowPosition < 2 ^ 30 ∧ 0 < tid.offset ∧
      tid.blockNumber * offsetBase + (tid.offset - 1) = payload i.fileId i.rowPosition := by
  have hl : payloadLimit = 2 ^ 47 := by decide
  have hfm : fileMask = 2 ^ 17 - 1 := by decide
  have hpm : positionMask = 2 ^ 30 - 1 := by decide
  have ho := tid.offset_lt
  obtain ⟨⟨raw, hv⟩, p⟩ := i
  have hra : raw < 2 ^ 17 := hv
  unfold decode
  dsimp only
  split_ifs with hr hpa
  · simp only [false_iff]
    rintro ⟨hp, hpo, heq⟩
    have := payload_lt ⟨raw, hv⟩ hp
    simp only [offsetBase, triggerRowBlockBase] at *
    omega
  · simp only [false_iff]
    rintro ⟨hp, hpo, heq⟩
    have := payload_lt ⟨raw, hv⟩ hp
    omega
  · simp only [Except.ok.injEq, IcebergRowIdentity.mk.injEq, IcebergFileId.mk.injEq, hfm,
      hpm, Nat.and_two_pow_sub_one_eq_mod, positionBits, Nat.shiftRight_eq_div_pow]
    constructor
    · rintro ⟨hf, hp⟩
      have hlt : p < 2 ^ 30 := by omega
      rw [payload_eq _ hlt]
      dsimp only
      omega
    · rintro ⟨hlt, _, heq⟩
      rw [payload_eq _ hlt] at heq
      dsimp only at heq
      omega

/-- Every physical row has an item pointer of its own, which decodes to it and is
no trigger row; an item pointer of no physical row is refused. -/
theorem rowIdentity_codec :
    (∀ (fileId : IcebergFileId) (position : ℕ), position < 2 ^ 30 →
      ∃ tid, encode fileId position = .ok tid ∧ 1 ≤ tid.offset ∧ tid.offset ≤ 65535 ∧
        tid.blockNumber < 0xC0000000 ∧ decode tid = .ok ⟨fileId, position⟩ ∧
        TriggerRowId.isEncoded tid = false ∧
        ∀ token next, TriggerRowId.allocate token ≠ .ok (tid, next)) ∧ ∀ tid : ItemPointer,
      (¬∃ fileId position, position < 2 ^ 30 ∧ encode fileId position = .ok tid) →
        ∃ error, decode tid = .error error := by
  constructor
  · intro fileId position hp
    have hpa := payload_lt fileId hp
    obtain ⟨tid, hti⟩ : ∃ tid, encode fileId position = .ok tid := by
      have hmax : ¬maxPosition < position := by
        have : maxPosition = 2 ^ 30 - 1 := by decide
        omega
      exact ⟨_, if_neg hmax⟩
    obtain ⟨_, hpos, heq⟩ := encode_eq_ok.mp hti
    have ho := tid.offset_lt
    have hb : tid.blockNumber < 0xC0000000 := by
      simp only [offsetBase] at heq
      omega
    have ht : TriggerRowId.isEncoded tid = false := by
      simp [TriggerRowId.isEncoded, triggerRowBlockBase, hb.not_ge]
    refine ⟨tid, hti, hpos, by omega, hb, decode_eq_ok.mpr ⟨hp, hpos, heq⟩, ht, ?_⟩
    intro token next ha
    rw [TriggerRowId.isEncoded_allocate ha] at ht
    cases ht
  · intro tid hima
    cases hd : decode tid with
    | error error => exact ⟨error, rfl⟩
    | ok i =>
      have hi := decode_eq_ok.mp hd
      exact absurd ⟨_, _, hi.1, encode_eq_ok.mpr hi⟩ hima

end IcebergRowIdentity

end LagoDB.RowClaims
