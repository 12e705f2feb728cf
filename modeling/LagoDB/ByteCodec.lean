import Mathlib.Tactic.Ring

/-!
# Fixed-width integers, texts and slices of byte strings

A byte string is a list of bytes. Integers are written least significant byte first in
a fixed width; reading what was written gives the integer back, and writing what was
read gives the bytes back. A text is written as its UTF-8 encoding.
-/
namespace LagoDB.ByteCodec

open List

abbrev Bytes := List UInt8

/-! ## Unsigned integers -/

/-- The `width` low bytes of `n`, least significant first. -/
def leBytes : ℕ → ℕ → Bytes
  | 0, _ => []
  | width + 1, n => UInt8.ofNat n :: leBytes width (n / 256)

/-- The number a little-endian byte string denotes. -/
def leNat : Bytes → ℕ
  | [] => 0
  | byte :: rest => byte.toNat + 256 * leNat rest

@[simp] lemma length_leBytes (width n : ℕ) : (leBytes width n).length = width := by
  induction width generalizing n with
  | zero => rfl
  | succ width ih => simp [leBytes, ih]

lemma leNat_lt (bs : Bytes) : leNat bs < 256 ^ bs.length := by
  induction bs with
  | nil => simp [leNat]
  | cons b r ih =>
    have hb : b.toNat < 256 := b.toNat_lt
    simp only [leNat, length_cons, pow_succ]
    omega

variable {width : ℕ}

lemma leNat_leBytes {n : ℕ} (h : n < 256 ^ width) : leNat (leBytes width n) = n := by
  induction width generalizing n with
  | zero =>
    have hn : n = 0 := by simpa using h
    simp [leBytes, leNat, hn]
  | succ width ih =>
    have hq : n / 256 < 256 ^ width := by omega
    simp only [leBytes, leNat, ih hq, UInt8.toNat_ofNat']
    omega

@[simp] lemma leBytes_leNat (bs : Bytes) : leBytes bs.length (leNat bs) = bs := by
  induction bs with
  | nil => rfl
  | cons b r ih =>
    have hb : b.toNat < 256 := b.toNat_lt
    have hq : (b.toNat + 256 * leNat r) / 256 = leNat r := by omega
    have hl : UInt8.ofNat (b.toNat + 256 * leNat r) = b := by
      apply UInt8.toNat_inj.mp
      rw [UInt8.toNat_ofNat']
      omega
    simp only [length_cons, leNat, leBytes, hq, ih, hl]

variable {bs : Bytes}

lemma leBytes_of_length (h : bs.length = width) : leBytes width (leNat bs) = bs := by
  rw [← h, leBytes_leNat]

lemma leNat_append (low high : Bytes) :
    leNat (low ++ high) = leNat low + 256 ^ low.length * leNat high := by
  induction low with
  | nil => simp [leNat]
  | cons b r ih =>
    rw [cons_append, leNat, leNat, ih, length_cons, pow_succ]
    ring

/-! ## Two's complement -/

/-- The two's complement bytes of an integer. -/
def intBytes (width : ℕ) (value : ℤ) : Bytes :=
  leBytes width (value % (256 ^ width : ℕ)).toNat

variable (bytes : Bytes)

/-- The integer a two's complement byte string denotes. -/
def leInt : ℤ :=
  (leNat bytes : ℤ).bmod (256 ^ bytes.length)

/-- The integers a two's complement format of the given width holds. -/
def FitsInt (width : ℕ) (value : ℤ) : Prop :=
  -((256 ^ width : ℕ) : ℤ) ≤ value * 2 ∧ value * 2 < (256 ^ width : ℕ)

instance (width : ℕ) (value : ℤ) : Decidable (FitsInt width value) :=
  inferInstanceAs (Decidable (_ ∧ _))

@[simp] lemma length_intBytes (width : ℕ) (v : ℤ) : (intBytes width v).length = width := by
  simp [intBytes]

lemma leNat_intBytes (width : ℕ) (v : ℤ) :
    (leNat (intBytes width v) : ℤ) = v % (256 ^ width : ℕ) := by
  have hpos : 0 < 256 ^ width := Nat.pow_pos (by decide)
  have hn : 0 ≤ v % (256 ^ width : ℕ) := Int.emod_nonneg _ (by omega)
  rw [intBytes, leNat_leBytes (by omega), Int.toNat_of_nonneg hn]

lemma leInt_intBytes {v : ℤ} (h : FitsInt width v) : leInt (intBytes width v) = v := by
  rw [leInt, length_intBytes, leNat_intBytes, Int.emod_bmod]
  exact Int.bmod_eq_of_le_mul_two h.1 h.2

lemma FitsInt.mono {v : ℤ} {w : ℕ} (h : FitsInt width v) (hw : width ≤ w) : FitsInt w v := by
  have hp : 256 ^ width ≤ 256 ^ w := Nat.pow_le_pow_right (by decide) hw
  unfold FitsInt at h ⊢
  omega

lemma leNat_emod (bs : Bytes) : (leNat bs : ℤ) % (256 ^ bs.length : ℕ) = leNat bs :=
  Int.emod_eq_of_lt (Int.natCast_nonneg _) (Int.ofNat_lt.mpr (leNat_lt bs))

lemma intBytes_leInt (bs : Bytes) : intBytes bs.length (leInt bs) = bs := by
  rw [intBytes, leInt, Int.bmod_emod, leNat_emod, Int.toNat_natCast, leBytes_leNat]

/-- The highest bit carries the sign. -/
lemma leInt_eq (bs : Bytes) : leInt bs = if 2 * leNat bs < 256 ^ bs.length then (leNat bs : ℤ)
    else leNat bs - (256 ^ bs.length : ℕ) := by
  rw [leInt, Int.bmod_def, leNat_emod]
  split_ifs <;> omega

lemma fitsInt_leInt (bs : Bytes) : FitsInt bs.length (leInt bs) := by
  have hn := leNat_lt bs
  rw [FitsInt, leInt_eq]
  split_ifs <;> omega

lemma leInt_concat_neg (low : Bytes) (top : UInt8) :
    leInt (low ++ [top]) < 0 ↔ 128 ≤ top.toNat := by
  have hl := leNat_lt low
  have ht : top.toNat < 256 := top.toNat_lt
  rw [leInt_eq, leNat_append, leNat, leNat, Nat.mul_zero, Nat.add_zero, length_append,
    length_singleton, pow_succ]
  generalize 256 ^ low.length = p at hl
  have hm : p * top.toNat ≤ p * 255 := Nat.mul_le_mul_left p (by omega)
  by_cases h : 128 ≤ top.toNat
  · have hh : p * 128 ≤ p * top.toNat := Nat.mul_le_mul_left p h
    rw [if_neg (by omega)]
    omega
  · have hh : p * top.toNat ≤ p * 127 := Nat.mul_le_mul_left p (by omega)
    rw [if_pos (by omega)]
    omega

/-- The byte that extends an integer of the given sign. -/
def signByte (negative : Bool) : UInt8 := if negative then 0xFF else 0x00

lemma leNat_replicate (k : ℕ) (n : Bool) :
    leNat (replicate k (signByte n)) = if n then 256 ^ k - 1 else 0 := by
  induction k with
  | zero => cases n <;> rfl
  | succ k ih =>
    have hp : 0 < 256 ^ k := Nat.pow_pos (by decide)
    rw [replicate_succ, leNat, ih, pow_succ]
    cases n with
    | false => rfl
    | true =>
      have hb : (signByte true).toNat = 255 := rfl
      rw [if_pos rfl, if_pos rfl]
      omega

/-- Sign bytes do not change the integer. -/
lemma leInt_extend (low : Bytes) (k : ℕ) :
    leInt (low ++ replicate k (signByte (leInt low < 0))) = leInt low := by
  have hn := leNat_lt low
  have hk : 0 < 256 ^ k := Nat.pow_pos (by decide)
  have hm := Nat.le_mul_of_pos_right (256 ^ low.length) hk
  have hv := leInt_eq low
  rw [leInt_eq, leNat_append, leNat_replicate, length_append, length_replicate, pow_add]
  by_cases hs : 2 * leNat low < 256 ^ low.length
  · rw [if_pos hs] at hv
    rw [decide_eq_false (by omega), if_neg Bool.false_ne_true, if_pos (by omega), hv]
    rfl
  · rw [if_neg hs] at hv
    rw [decide_eq_true (by omega), if_pos rfl, Nat.mul_sub_one, if_neg (by omega), hv]
    omega

/-- An integer fits in fewer bytes just when the others extend it. -/
lemma fitsInt_append_iff (low high : Bytes) : FitsInt low.length (leInt (low ++ high)) ↔
    high = replicate high.length (signByte (leInt low < 0)) := by
  constructor
  · intro h
    have he := leInt_extend (intBytes low.length (leInt (low ++ high))) high.length
    rw [leInt_intBytes h] at he
    -- both strings of this length denote the integer
    have hb := intBytes_leInt (intBytes low.length (leInt (low ++ high)) ++
      replicate high.length (signByte (leInt (low ++ high) < 0)))
    rw [he, length_append, length_intBytes, length_replicate, ← length_append, intBytes_leInt] at hb
    obtain ⟨hl, hh⟩ := append_inj hb (length_intBytes ..).symm
    have hv : leInt low = leInt (low ++ high) := by
      conv_lhs => rw [hl]
      exact leInt_intBytes h
    rwa [hv]
  · intro h
    rw [h, leInt_extend]
    exact fitsInt_leInt low

lemma leInt_append_of_fits {low high : Bytes} (h : FitsInt low.length (leInt (low ++ high))) :
    leInt (low ++ high) = leInt low := by
  rw [(fitsInt_append_iff low high).mp h, leInt_extend]

/-! ## Texts -/

def utf8 (text : String) : Bytes :=
  text.toByteArray.data.toList

/-- The text whose UTF-8 encoding the bytes are. -/
def fromUtf8 : Option String :=
  String.fromUTF8? ⟨bytes.toArray⟩

lemma fromUtf8_eq_some {t : String} : fromUtf8 bs = some t ↔ utf8 t = bs := by
  constructor
  · intro h
    simp only [fromUtf8, String.fromUTF8?] at h
    split at h
    · cases h
      simp [utf8, String.fromUTF8]
    · cases h
  · rintro rfl
    have hv : t.toByteArray.IsValidUTF8 := t.isValidUTF8
    have ha : (⟨t.toByteArray.data.toList.toArray⟩ : ByteArray) = t.toByteArray := by simp
    simp only [fromUtf8, utf8, ha, String.fromUTF8?, dif_pos hv]
    rfl

@[simp] lemma fromUtf8_utf8 (t : String) : fromUtf8 (utf8 t) = some t := fromUtf8_eq_some.mpr rfl

/-! ## Slices -/

/-- The bytes of a range, if the range lies in the byte string. -/
def slice (start stop : ℕ) : Option Bytes :=
  if start ≤ stop ∧ stop ≤ bytes.length then some ((bytes.drop start).take (stop - start))
  else none

lemma slice_append (b m a : Bytes) :
    slice (b ++ m ++ a) b.length (b.length + m.length) = some m := by
  simp [slice]

lemma slice_eq_some {p : Bytes} {s stop : ℕ} :
    slice bs s stop = some p ↔ s ≤ stop ∧ stop ≤ bs.length ∧ (bs.drop s).take (stop - s) = p := by
  simp [slice, and_assoc]

lemma drop_of_slice {p : Bytes} {s stop : ℕ} (h : slice bs s stop = some p) :
    p.length = stop - s ∧ bs.drop s = p ++ bs.drop stop := by
  obtain ⟨hle, he, rfl⟩ := slice_eq_some.mp h
  constructor
  · simp only [length_take, length_drop]
    omega
  · have hs : bs.drop stop = (bs.drop s).drop (stop - s) := by
      rw [drop_drop]
      congr 1
      omega
    rw [hs, take_append_drop]

end LagoDB.ByteCodec
