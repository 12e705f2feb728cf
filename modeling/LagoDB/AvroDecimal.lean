import LagoDB.ByteCodec
import LagoDB.NumericCodec

/-!
# Avro decimals

`signed_be_bytes_to_i128` reads a big-endian two's complement integer of any length. The integer a
string of bytes denotes is `leInt` of its reverse.
-/

namespace LagoDB.NumericCodec

open ByteCodec List

/-- The sixteen bytes of `i128::from_be_bytes` are the last ones of the string, or all of it
after its sign bytes. -/
def Decimal128NumericCodec.signedBeBytesToI128 (codec : Decimal128NumericCodec) (bytes : Bytes) :
    Except DecimalCodecError ℤ :=
  match bytes with
  | [] => .ok 0
  | first :: _ =>
    let sign := first &&& 0x80 != 0
    let retained := bytes.length - 16
    if 0 < retained ∧ (¬(bytes.take retained).all (· == signByte sign) ∨
        (bytes.getD retained 0 &&& 0x80 != 0) ≠ sign) then
      codec.outOfRange "Avro decimal value cannot be represented as Decimal128"
    else
      let source := bytes.drop retained
      .ok (leInt (replicate (16 - source.length) (signByte sign) ++ source).reverse)

lemma signBit_eq (low : Bytes) (top : UInt8) :
    (top &&& 0x80 != 0) = decide (leInt (low ++ [top]) < 0) := by
  have hb : ∀ n < 256, (UInt8.ofNat n &&& 0x80 != 0) = decide (128 ≤ n) := by
    decide +kernel
  have ht := hb top.toNat top.toNat_lt
  rw [UInt8.ofNat_toNat] at ht
  rw [ht, decide_eq_decide, leInt_concat_neg]

lemma signBit_signByte (n : Bool) : (signByte n &&& 0x80 != 0) = n := by
  cases n <;> rfl

/-- The check passes just when the bytes in front extend the others. -/
lemma extends_iff (f top : UInt8) (high low : Bytes) :
    (f :: high).all (· == signByte (f &&& 0x80 != 0)) = true ∧
        (top &&& 0x80 != 0) = (f &&& 0x80 != 0) ↔
      FitsInt (top :: low).length (leInt (f :: high ++ top :: low).reverse) := by
  rw [reverse_append, ← length_reverse, fitsInt_append_iff, reverse_cons (a := top),
    ← signBit_eq, reverse_eq_iff, reverse_replicate, length_reverse, eq_replicate_iff]
  simp only [all_eq_true, beq_iff_eq, true_and]
  constructor
  · rintro ⟨ha, hs⟩
    rwa [hs]
  · intro ha
    have hs : (top &&& 0x80 != 0) = (f &&& 0x80 != 0) := by
      rw [ha f mem_cons_self, signBit_signByte]
    exact ⟨hs ▸ ha, hs⟩

section

variable (codec c : Decimal128NumericCodec)

lemma signedBeBytesToI128_short {bs : Bytes} (h : bs.length ≤ 16) :
    c.signedBeBytesToI128 bs = .ok (leInt bs.reverse) := by
  cases bs with
  | nil => rfl
  | cons f r =>
    have hz : (f :: r).length - 16 = 0 := Nat.sub_eq_zero_of_le h
    have hs := signBit_eq r.reverse f
    rw [← reverse_cons] at hs
    unfold Decimal128NumericCodec.signedBeBytesToI128
    dsimp only
    rw [hz, if_neg fun h => h.1.ne rfl, drop_zero, hs, reverse_append, reverse_replicate,
      leInt_extend]

lemma signedBeBytesToI128_long {f top : UInt8} {high low : Bytes} (hl : (top :: low).length = 16) :
    c.signedBeBytesToI128 (f :: high ++ top :: low) =
      if FitsInt 16 (leInt (f :: high ++ top :: low).reverse) then
        .ok (leInt (f :: high ++ top :: low).reverse)
      else c.outOfRange "Avro decimal value cannot be represented as Decimal128" := by
  have hk : (f :: high ++ top :: low).length - 16 = (f :: high).length := by
    rw [length_append, hl, Nat.add_sub_cancel]
  have hg : (f :: high ++ top :: low).getD (f :: high).length 0 = top := by simp
  have hx := extends_iff f top high low
  rw [hl] at hx
  unfold Decimal128NumericCodec.signedBeBytesToI128
  rw [cons_append]
  dsimp only
  rw [← cons_append, hk, take_left, drop_left, hg, hl, Nat.sub_self, replicate_zero, nil_append]
  by_cases hf : FitsInt 16 (leInt (f :: high ++ top :: low).reverse)
  · obtain ⟨ha, hs⟩ := hx.mpr hf
    rw [if_pos hf, if_neg fun h => h.2.elim (· ha) (· hs), reverse_append,
      leInt_append_of_fits (by rwa [length_reverse, hl, ← reverse_append])]
  · rw [if_neg hf, if_pos ⟨Nat.succ_pos _, not_and_or.mp (mt hx.mp hf)⟩]

/-- Every integer of sixteen bytes is read, however many sign bytes stand in front of it. -/
theorem signedBeBytesToI128_exact (bytes : Bytes) (value : ℤ) :
    codec.signedBeBytesToI128 bytes = .ok value ↔
      FitsInt 16 (leInt bytes.reverse) ∧ value = leInt bytes.reverse := by
  by_cases hl : bytes.length ≤ 16
  · have hf : FitsInt 16 (leInt bytes.reverse) :=
      (fitsInt_leInt bytes.reverse).mono (by rwa [length_reverse])
    rw [signedBeBytesToI128_short codec hl, Except.ok.injEq, eq_comm, and_iff_right hf]
  · -- the string ends in sixteen bytes, with at least one in front
    have hd : (bytes.drop (bytes.length - 16)).length = 16 := by rw [length_drop]; omega
    have ht : (bytes.take (bytes.length - 16)).length = bytes.length - 17 + 1 := by
      rw [length_take]; omega
    obtain ⟨top, low, hlow⟩ := exists_cons_of_length_eq_add_one hd
    obtain ⟨first, high, hhigh⟩ := exists_cons_of_length_eq_add_one ht
    rw [← take_append_drop (bytes.length - 16) bytes, hlow, hhigh,
      signedBeBytesToI128_long codec (hlow ▸ hd)]
    split_ifs with hf
    · rw [Except.ok.injEq, eq_comm, and_iff_right hf]
    · exact ⟨nofun, fun h => absurd h.1 hf⟩

end

end LagoDB.NumericCodec
