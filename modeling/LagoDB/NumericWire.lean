import LagoDB.NumericCodec
import Mathlib.Data.Nat.Digits.Lemmas

/-!
# Decimal128 values as NUMERIC and back

A coefficient is cut into base-10000 groups that are aligned to the decimal point, so
that the lowest group may hold less than four of its decimals. The groups are written
from the back of a buffer of fixed size. What the digits denote is the coefficient at its
scale whenever the buffer is large enough; the buffer for Decimal128 is one group short
for some values of 38 decimals. The way back misses zero at the largest scales.
-/
namespace LagoDB.NumericCodec

open ExceptLoop List Option Decimal128NumericCodec PgNumeric

/-! ## Groups of a coefficient -/

/-- The loop over the groups, which fills the `slots` free places of a buffer from the
back. A group without a place is written out of bounds. -/
def fillGroups : ℕ → ℕ → List ℕ → Option (List ℕ)
  | 0, value, groups => if value = 0 then some groups else none
  | slots + 1, value, groups =>
    if value = 0 then some groups
    else fillGroups slots (value / 10000) (value % 10000 :: groups)

/-- The groups of a non-zero value whose lowest group takes `padding` decimals, or four. -/
def alignedGroups (slots value padding : ℕ) : Option (List ℕ) :=
  if padding = 0 then fillGroups slots value []
  else match slots with
    | 0 => none
    | slots + 1 =>
      fillGroups slots (value / 10 ^ padding) [value % 10 ^ padding * 10 ^ (4 - padding)]

/-- The weight of the first group and the padding of the last one. -/
def placement (decimalDigits scale : ℕ) : ℤ × ℕ :=
  let decimalWeight : ℤ := decimalDigits - scale - 1
  let weight :=
    if 0 ≤ decimalWeight then (decimalWeight + 4) / 4 - 1 else -((-decimalWeight - 1) / 4 + 1)
  let offset := (weight + 1) * 4 - (decimalWeight + 1)
  (weight, ((offset + decimalDigits) % 4).toNat)

lemma placement_eq (ds s : ℕ) : placement ds s = (((ds : ℤ) - s - 1) / 4, s % 4) := by
  simp only [placement, Prod.mk.injEq]
  split_ifs <;> omega

/-- The value with the zeros that complete its lowest group. -/
def completed (value scale : ℕ) : ℕ := value * 10 ^ ((4 - scale % 4) % 4)

lemma fillGroups_eq (ss v : ℕ) (gs : List ℕ) : fillGroups ss v gs =
      if v < 10000 ^ ss then some ((Nat.digits 10000 v).reverse ++ gs) else none := by
  induction ss generalizing v gs with
  | zero => by_cases hv : v = 0 <;> simp [fillGroups, hv]
  | succ ss ih =>
    rw [fillGroups]
    by_cases hv : v = 0
    · simp [hv]
    · have hb : v / 10000 < 10000 ^ ss ↔ v < 10000 ^ (ss + 1) := by
        rw [Nat.div_lt_iff_lt_mul (by norm_num), pow_succ]
      rw [if_neg hv, ih, Nat.digits_def' (by norm_num) (Nat.pos_of_ne_zero hv)]
      simp [hb]

lemma alignedGroups_eq {v : ℕ} (ss s : ℕ) (hv : v ≠ 0) :
    alignedGroups ss v (s % 4) = if completed v s < 10000 ^ ss then
      some (Nat.digits 10000 (completed v s)).reverse else none := by
  unfold alignedGroups completed
  have hp : s % 4 < 4 := Nat.mod_lt _ (by norm_num)
  generalize s % 4 = padding at hp ⊢
  by_cases hz : padding = 0
  · simp [hz, fillGroups_eq]
  · have hr : (4 - padding) % 4 = 4 - padding := Nat.mod_eq_of_lt (by omega)
    have hb : 10000 = 10 ^ padding * 10 ^ (4 - padding) := by
      rw [← pow_add, Nat.add_sub_cancel' hp.le]
      norm_num
    have hpos : 0 < 10 ^ (4 - padding) := by positivity
    have hc : 0 < v * 10 ^ (4 - padding) := Nat.mul_pos (Nat.pos_of_ne_zero hv) hpos
    rw [if_neg hz, hr]
    cases ss with
    | zero => simp [hv]
    | succ ss =>
      have hm : v * 10 ^ (4 - padding) % 10000 = v % 10 ^ padding * 10 ^ (4 - padding) := by
        rw [hb, Nat.mul_mod_mul_right]
      have hd : v * 10 ^ (4 - padding) / 10000 = v / 10 ^ padding := by
        rw [hb, Nat.mul_div_mul_right _ _ hpos]
      have hbo : v / 10 ^ padding < 10000 ^ ss ↔ v * 10 ^ (4 - padding) < 10000 ^ (ss + 1) := by
        rw [← hd, Nat.div_lt_iff_lt_mul (by norm_num), pow_succ]
      rw [Nat.digits_def' (by norm_num) hc, hm, hd]
      simp [fillGroups_eq, hbo]

/-! ## What groups denote -/

lemma digitsValue_from (ds : List ℕ) (s : ℤ) :
    ds.foldl withDigit s = s * 10000 ^ ds.length + (Nat.ofDigits 10000 ds.reverse : ℕ) := by
  induction ds generalizing s with
  | nil => simp
  | cons d r ih =>
    rw [foldl_cons, ih, withDigit, reverse_cons, Nat.ofDigits_append]
    simp only [length_cons, length_reverse, Nat.ofDigits_singleton]
    push_cast
    ring

lemma digitsValue_eq (ds : List ℕ) : digitsValue ds = (Nat.ofDigits 10000 ds.reverse : ℕ) := by
  rw [digitsValue, digitsValue_from, zero_mul, zero_add]

/-- What `numeric_send` promises of a finite value. -/
structure WellFormed (weight : ℤ) (digits : List ℕ) : Prop where
  digit : ∀ digit ∈ digits, digit < 10000
  leading : digits.head? ≠ some 0
  zero : digits = [] → weight = 0

lemma completed_length {v : ℕ} (s : ℕ) (hv : v ≠ 0) :
    4 * ((((Nat.digits 10 v).length : ℤ) - s - 1) / 4 + 1 -
        (Nat.digits 10000 (completed v s)).length) = -(s + (4 - s % 4) % 4 : ℕ) := by
  have hc : completed v s ≠ 0 := by simp [completed, hv]
  have hd : (Nat.digits 10 (completed v s)).length =
      (4 - s % 4) % 4 + (Nat.digits 10 v).length := by
    rw [completed, mul_comm, Nat.digits_base_pow_mul (by norm_num) (Nat.pos_of_ne_zero hv)]
    simp
  have hg : (Nat.digits 10000 (completed v s)).length =
      ((Nat.digits 10 (completed v s)).length - 1) / 4 + 1 := by
    have hl := Nat.log_pow_left 10 4 (completed v s)
    rw [Nat.length_digits _ _ (by norm_num) hc,
      Nat.length_digits _ _ (by norm_num) hc, hl, Nat.add_sub_cancel]
  have hpos : 0 < (Nat.digits 10 v).length :=
    length_pos_of_ne_nil (Nat.digits_ne_nil_iff_ne_zero.mpr hv)
  omega

/-- The groups of a value, with the weight of its decimals. -/
lemma completed_value {v : ℕ} (s : ℕ) (hv : v ≠ 0) :
    WellFormed ((((Nat.digits 10 v).length : ℤ) - s - 1) / 4)
        (Nat.digits 10000 (completed v s)).reverse ∧
      ∀ neg, (finite neg ((((Nat.digits 10 v).length : ℤ) - s - 1) / 4)
          (Nat.digits 10000 (completed v s)).reverse).value =
        .finite ((if neg then -1 else 1) * v / 10 ^ s) := by
  have hc : completed v s ≠ 0 := by simp [completed, hv]
  have hne : Nat.digits 10000 (completed v s) ≠ [] := Nat.digits_ne_nil_iff_ne_zero.mpr hc
  refine ⟨⟨?_, ?_, ?_⟩, fun neg => ?_⟩
  · intro d hdi
    exact Nat.digits_lt_base (by norm_num) (mem_reverse.mp hdi)
  · rw [List.head?_reverse, List.getLast?_eq_some_getLast hne, Ne, some_inj]
    exact Nat.getLast_digit_ne_zero 10000 hc
  · intro hn
    exact absurd (reverse_eq_nil_iff.mp hn) hne
  · have hd : digitsValue (Nat.digits 10000 (completed v s)).reverse = completed v s := by
      rw [digitsValue_eq, reverse_reverse, Nat.ofDigits_digits]
    have hl := completed_length s hv
    rw [value, hd, length_reverse]
    generalize (((Nat.digits 10 v).length : ℤ) - s - 1) / 4 + 1 -
      (Nat.digits 10000 (completed v s)).length = exponent at hl ⊢
    have hp : ((10 : ℚ) ^ ((4 - s % 4) % 4)) * (10000 : ℚ) ^ exponent = (10 ^ s)⁻¹ := by
      have hb : (10000 : ℚ) = (10 : ℚ) ^ (4 : ℤ) := by norm_num
      rw [hb, ← zpow_mul, ← zpow_natCast, ← zpow_natCast, ← zpow_add₀ (by norm_num), ← zpow_neg]
      congr 1
      omega
    rw [completed, div_eq_mul_inv, ← hp]
    push_cast
    congr 1
    ring

/-! ## From Decimal128 -/

/-- A NUMERIC in PostgreSQL's external form; `digits` are the `ndigits` in use. -/
structure NumericExternal where
  weight : ℤ
  negative : Bool
  dscale : ℕ
  digits : List ℕ
  deriving DecidableEq

def maxNdigits : ℕ := 38 / 4 + 1

def decimalDigitCount (value : ℕ) : ℕ :=
  if value = 0 then 0 else decimalDigitCount (value / 10) + 1
decreasing_by omega

namespace NumericExternal

def value (external : NumericExternal) : NumericValue :=
  (finite external.negative external.weight external.digits).value

def fromUnsigned (magnitude : ℕ) (negative : Bool) (scale : ℕ) : Option NumericExternal :=
  let (weight, padding) := placement (decimalDigitCount magnitude) scale
  (alignedGroups maxNdigits magnitude padding).map fun digits =>
    ⟨weight, negative, scale, digits⟩

/-- Without a result an index is out of bounds. -/
def fromDecimal128 (unscaled : ℤ) (scale : ℕ) : Option NumericExternal :=
  if unscaled = 0 then some ⟨0, false, scale, []⟩
  else fromUnsigned unscaled.natAbs (unscaled < 0) scale

end NumericExternal

lemma decimalDigitCount_eq (v : ℕ) : decimalDigitCount v = (Nat.digits 10 v).length := by
  induction v using Nat.strong_induction_on with
  | _ v ih =>
    rw [decimalDigitCount]
    split_ifs with hv
    · simp [hv]
    · rw [Nat.digits_def' (by norm_num) (Nat.pos_of_ne_zero hv), length_cons, ih _ (by omega)]

/-- Whether the lowest group of a value is zero. -/
lemma completed_trailing (v s : ℕ) :
    completed v s % 10000 = 0 ↔ v % (if s % 4 = 0 then 10000 else 10 ^ (s % 4)) = 0 := by
  have hc : s % 4 = 0 ∨ s % 4 = 1 ∨ s % 4 = 2 ∨ s % 4 = 3 := by omega
  unfold completed
  rcases hc with h | h | h | h <;> simp only [h] <;> norm_num <;> omega

open NumericExternal in
/-- The buffer is too small for 38 decimals of which one is in the lowest group. -/
lemma fromDecimal128_isSome {u : ℤ} (s : ℕ) (hr : u.natAbs < 10 ^ 38) :
    (fromDecimal128 u s).isSome = true ↔ u.natAbs < 10 ^ 37 ∨ s % 4 ≠ 1 := by
  unfold fromDecimal128 fromUnsigned
  split_ifs with hz
  · simp [hz]
  · rw [placement_eq]
    dsimp only
    rw [alignedGroups_eq _ _ (Int.natAbs_ne_zero.mpr hz), completed, maxNdigits]
    have hc : s % 4 = 0 ∨ s % 4 = 1 ∨ s % 4 = 2 ∨ s % 4 = 3 := by omega
    rcases hc with h | h | h | h <;> simp only [h] <;> norm_num at hr ⊢ <;> omega

lemma signed_natAbs (v : ℤ) : (if decide (v < 0) then -1 else 1) * (v.natAbs : ℚ) = v := by
  rcases lt_or_ge v 0 with hneg | hn
  · simp [hneg, Nat.cast_natAbs, abs_of_neg hneg]
  · simp [hn.not_gt, Nat.cast_natAbs, abs_of_nonneg hn]

open NumericExternal in
lemma fromDecimal128_spec {u : ℤ} {s : ℕ} {x : NumericExternal} (h : fromDecimal128 u s = some x) :
    x.value = .finite (u / 10 ^ s) ∧ x.dscale = s ∧ WellFormed x.weight x.digits ∧ x.digits =
      (Nat.digits 10000 (completed u.natAbs s)).reverse := by
  unfold fromDecimal128 fromUnsigned at h
  split_ifs at h with hz
  · cases h
    refine ⟨?_, rfl, ⟨by simp, by simp, fun _ => rfl⟩, by simp [hz, completed]⟩
    simp [NumericExternal.value, PgNumeric.value, digitsValue, hz]
  · rw [placement_eq] at h
    obtain ⟨ds, hd, rfl⟩ := map_eq_some_iff.mp h
    have hv := Int.natAbs_ne_zero.mpr hz
    rw [alignedGroups_eq _ _ hv] at hd
    split_ifs at hd
    cases hd
    obtain ⟨hw, hn⟩ := completed_value s hv
    rw [decimalDigitCount_eq]
    refine ⟨?_, rfl, hw, rfl⟩
    rw [NumericExternal.value, hn, signed_natAbs]

/-- The conversion returns normalized digits of the exact value if and only if all groups
have a place and the lowest one is not zero. -/
theorem fromDecimal128_exact_iff (codec : Decimal128NumericCodec) {unscaled : ℤ}
    (hrange : unscaled.natAbs < 10 ^ codec.precision) :
    (∃ external, NumericExternal.fromDecimal128 unscaled codec.scale = some external ∧
      external.value = .finite (unscaled / 10 ^ codec.scale) ∧ external.dscale = codec.scale ∧
      (∀ digit ∈ external.digits, digit < 10000) ∧ external.digits.head? ≠ some 0 ∧
      external.digits.getLast? ≠ some 0) ↔ (unscaled.natAbs < 10 ^ 37 ∨ codec.scale % 4 ≠ 1) ∧
      (unscaled = 0 ∨ unscaled.natAbs %
        (if codec.scale % 4 = 0 then 10000 else 10 ^ (codec.scale % 4)) ≠ 0) := by
  have hl : unscaled.natAbs < 10 ^ 38 :=
    hrange.trans_le (Nat.pow_le_pow_right (by norm_num) codec.valid.2.1)
  rw [← fromDecimal128_isSome codec.scale hl, isSome_iff_exists, ← exists_and_right]
  refine exists_congr fun external => and_congr_right fun h => ?_
  obtain ⟨hv, hds, hw, hd⟩ := fromDecimal128_spec h
  simp only [hv, hds, hw.leading, true_and, ne_eq, not_false_eq_true, iff_true_intro hw.digit]
  rw [hd, ← completed_trailing]
  by_cases hz : unscaled = 0
  · simp [hz, completed]
  · have hc : 0 < completed unscaled.natAbs codec.scale := by
      simp [completed, Int.natAbs_pos.mpr hz]
    rw [Nat.digits_def' (by norm_num) hc]
    simp [hz]

theorem fromDecimal128_one_place_short :
    ((10 : ℤ) ^ 37).natAbs < 10 ^ 38 ∧ NumericExternal.fromDecimal128 (10 ^ 37) 1 = none := by
  have hr : ((10 : ℤ) ^ 37).natAbs < 10 ^ 38 := by norm_num
  have hn := mt (fromDecimal128_isSome 1 hr).mp (by norm_num)
  exact ⟨hr, not_isSome_iff_eq_none.mp hn⟩

theorem fromDecimal128_exact_12345 :
    ∃ external, NumericExternal.fromDecimal128 12345 2 = some external ∧
      external.value = .finite ((12345 : ℤ) / 10 ^ 2) ∧ external.dscale = 2 ∧
      (∀ digit ∈ external.digits, digit < 10000) ∧ external.digits.head? ≠ some 0 ∧
      external.digits.getLast? ≠ some 0 :=
  (fromDecimal128_exact_iff ⟨38, 2, by decide⟩ (by norm_num)).mpr (by norm_num)

/-! ## Back to Decimal128 -/

section Complete

variable {c : Decimal128NumericCodec} {o : ℤ} {ds : List ℕ} {r : ℕ} {s : ℤ}

lemma le_digitsValue_from (ds : List ℕ) (h : 0 ≤ s) : s ≤ ds.foldl withDigit s := by
  have hp : (1 : ℤ) ≤ 10000 ^ ds.length := one_le_pow₀ (by norm_num)
  rw [digitsValue_from]
  nlinarith [Int.natCast_nonneg (Nat.ofDigits 10000 ds.reverse)]

lemma checked_ok {v : ℤ} (h : -2 ^ 127 ≤ v ∧ v < 2 ^ 127) : checked v = some v := if_pos h

lemma pushDigit_ok {r d : ℤ} (hl : 0 ≤ o * r) (hd : 0 ≤ d) (hh : o * r + d < 2 ^ 127) :
    c.pushDigit o r d = .ok (o * r + d) := by
  rw [pushDigit, checked_ok ⟨by omega, by omega⟩, bind_some, checked_ok ⟨by omega, hh⟩]

lemma accumulate_ok (hs : 0 ≤ s) (h : ds.foldl withDigit s < 2 ^ 127) :
    ds.foldlM (fun o (d : ℕ) => c.pushDigit o 10000 d) s = .ok (ds.foldl withDigit s) := by
  induction ds generalizing s with
  | nil => rfl
  | cons d r ih =>
    have hn : 0 ≤ withDigit s d := by unfold withDigit; omega
    have hp := @pushDigit_ok c s 10000 d (by omega) (by omega)
      ((le_digitsValue_from r hn).trans_lt h)
    rw [foldlM_cons, bind_ok hp]
    exact ih hn h

variable {p : ℕ} {e i : ℕ}

lemma scaledDigits_zeros (hd : e ≤ i) (hz : ∀ d ∈ ds, d = 0) :
    c.scaledDigits e p i ds o = .ok o := by
  induction ds generalizing i with
  | nil => rfl
  | cons d r ih =>
    obtain ⟨hdi, hr⟩ := forall_mem_cons.mp hz
    rw [scaledDigits, if_pos hd, if_neg (not_not.mpr hdi)]
    exact ih (Nat.le_succ_of_le hd) hr

variable (c) in
lemma lastDigit_ok {d : ℕ} (hp : p < 4) (hc : 0 ≤ o)
    (hr : r < 2 ^ 127) (h : o * 10000 + d = r * 10 ^ p) :
    d % 10 ^ p = 0 ∧ c.pushDigit o (10000 / 10 ^ p) (d / 10 ^ p) = .ok (r : ℤ) := by
  have hdv : (10 : ℤ) ^ p ∣ o * 10000 := Dvd.dvd.mul_left (by exact_mod_cast pow_dvd_pow 10 hp.le) _
  have hd : (10 : ℤ) ^ p ∣ d := (Int.dvd_add_right hdv).mp (h ▸ Dvd.intro_left _ rfl)
  have hm : d % 10 ^ p = 0 := Nat.mod_eq_zero_of_dvd (by exact_mod_cast hd)
  have he := droppedPlaces_eq o hp hm
  rw [h] at he
  have hs := mul_right_cancel₀ (by positivity) he
  refine ⟨hm, ?_⟩
  rw [pushDigit_ok (by positivity) (by positivity) (by rw [hs]; exact_mod_cast hr), hs]

lemma scaledDigits_ok (hpl : p < 4) (hlt : i < e)
    (hle : e ≤ i + ds.length) (hdi : ∀ d ∈ ds, d < 10000) (hc : 0 ≤ o) (hr : r < 2 ^ 127)
    (h : ds.foldl withDigit o = r * 10 ^ p * 10000 ^ (i + ds.length - e)) :
    c.scaledDigits e p i ds o = .ok (r : ℤ) := by
  induction ds generalizing i o with
  | nil => simp only [length_nil, Nat.add_zero] at hle; omega
  | cons d rest ih =>
    obtain ⟨-, hre⟩ := forall_mem_cons.mp hdi
    have hl : i + (d :: rest).length = i + 1 + rest.length := by rw [length_cons]; omega
    rw [hl] at hle h
    rw [foldl_cons, withDigit] at h
    have hf := digitsValue_from rest (o * 10000 + d)
    rw [h] at hf
    have hlo := Nat.ofDigits_lt_base_pow_length (b := 10000) (l := rest.reverse) (by norm_num)
      (fun d hd => hre d (mem_reverse.mp hd))
    rw [length_reverse] at hlo
    rw [scaledDigits, if_neg (by omega)]
    by_cases hla : i + 1 = e
    · -- what follows is a multiple of its place value, and less than it
      subst hla
      rw [Nat.add_sub_cancel_left] at hf
      have hze : Nat.ofDigits 10000 rest.reverse = 0 := by
        have hm := congrArg (· % (10000 : ℤ) ^ rest.length) hf
        simp only [Int.mul_emod_left, add_comm _ (Nat.cast _), Int.add_mul_emod_self_right] at hm
        rw [Int.emod_eq_of_lt (by positivity) (by exact_mod_cast hlo)] at hm
        exact_mod_cast hm.symm
      have hv : o * 10000 + d = r * 10 ^ p := by
        rw [hze, Nat.cast_zero, add_zero] at hf
        exact (mul_right_cancel₀ (by positivity) hf).symm
      obtain ⟨hm, hp⟩ := lastDigit_ok c hpl hc hr hv
      have hz : ∀ d ∈ rest, d = 0 := fun d hd =>
        Nat.digits_zero_of_eq_zero (by norm_num) hze d (mem_reverse.mpr hd)
      by_cases hn : p = 0
      · subst hn
        simp only [pow_zero, Int.ediv_one] at hp
        rw [if_neg (by simp), bind_ok hp]
        exact scaledDigits_zeros le_rfl hz
      · rw [if_pos ⟨rfl, hn⟩, if_neg (not_not.mpr hm), bind_ok hp]
        exact scaledDigits_zeros le_rfl hz
    · have hsm : o * 10000 + d ≤ r := by
        have hpo : (10 : ℤ) ^ p * 10000 ^ (i + 1 + rest.length - e) ≤ 10000 ^ rest.length := by
          have hb : (10000 : ℤ) = 10 ^ 4 := by norm_num
          rw [hb, ← pow_mul, ← pow_mul, ← pow_add]
          exact pow_le_pow_right₀ (by norm_num) (by omega)
        have hs := mul_le_mul_of_nonneg_left hpo (Int.natCast_nonneg r)
        refine le_of_mul_le_mul_right ?_ (by positivity : (0 : ℤ) < 10000 ^ rest.length)
        rw [← mul_assoc] at hs
        omega
      rw [if_neg fun hbo => hla hbo.1, bind_ok (pushDigit_ok (by omega) (by omega) (by omega))]
      exact ih (by omega) hle hre (by omega) h

lemma accumulateScaled_ok {ps : ℕ} (hd : ∀ d ∈ ds, d < 10000) (hpo : 0 < r) (hr : r < 2 ^ 127)
    (hv : digitsValue ds = (r * 10 ^ ps : ℕ)) :
    c.accumulateScaledNumericDigits ds ps = .ok (r : ℤ) := by
  have hp : 10 ^ ps = 10 ^ (ps % 4) * 10000 ^ (ps / 4) := by
    have hb : 10000 = 10 ^ 4 := by norm_num
    rw [hb, ← pow_mul, ← pow_add, Nat.mod_add_div]
  rw [hp] at hv
  have hm : ps / 4 < ds.length := by
    have hlt := Nat.ofDigits_lt_base_pow_length (b := 10000) (l := ds.reverse) (by norm_num)
      (fun d hdi => hd d (mem_reverse.mp hdi))
    rw [digitsValue_eq, Nat.cast_inj] at hv
    rw [hv, length_reverse, ← mul_assoc] at hlt
    refine (Nat.pow_lt_pow_iff_right (a := 10000) (by norm_num)).mp (lt_of_le_of_lt ?_ hlt)
    exact Nat.le_mul_of_pos_left _ (by positivity)
  rw [accumulateScaledNumericDigits, if_neg (by omega)]
  refine scaledDigits_ok (Nat.mod_lt _ (by norm_num)) (by omega) (by omega) hd le_rfl hr ?_
  have hg : 0 + ds.length - (ds.length - ps / 4) = ps / 4 := by omega
  rw [← digitsValue, hv, hg]
  push_cast
  ring

lemma WellFormed.positive {w : ℤ} (hw : WellFormed w ds) (h : ds ≠ []) : 0 < digitsValue ds := by
  cases ds with
  | nil => exact absurd rfl h
  | cons d r =>
    have hd : d ≠ 0 := fun hz => hw.leading (by simp [hz])
    have hle := le_digitsValue_from r (Int.natCast_nonneg d)
    rw [digitsValue, foldl_cons, withDigit, zero_mul, zero_add]
    omega

/-- A value that is a coefficient of the scale is rescaled to it, zero only up to a point. -/
lemma unscaledDigits_ok {w : ℤ} (hw : WellFormed w ds)
    (hz : ds ≠ [] ∨ c.scale ≤ 34) (hr : r < 2 ^ 127)
    (hv : digitsValue ds * (10000 : ℚ) ^ (w + 1 - ds.length) * 10 ^ c.scale = r) :
    c.unscaledDigits w ds = .ok (r : ℤ) := by
  rw [mul_assoc, scaledPower_eq] at hv
  unfold unscaledDigits
  dsimp only
  by_cases he : 0 ≤ (w + 1 - ds.length) * 4 + (c.scale : ℤ)
  · obtain ⟨exponent, hex⟩ := Int.eq_ofNat_of_zero_le he
    rw [if_pos he]
    rw [hex] at hv ⊢
    have hp : digitsValue ds * 10 ^ exponent = r := by exact_mod_cast hv
    have hpow : (1 : ℤ) ≤ 10 ^ exponent := one_le_pow₀ (by norm_num)
    have hn : 0 ≤ digitsValue ds := le_digitsValue_from ds le_rfl
    have hf : (10 : ℤ) ^ exponent < 2 ^ 127 := by
      by_cases hnil : ds = []
      · have hsm : exponent ≤ 38 := by
          simp only [hnil, hw.zero hnil, length_nil] at hex
          rcases hz with hne | hsc
          · exact absurd hnil hne
          · omega
        exact (pow_le_pow_right₀ (by norm_num) hsm).trans_lt (by norm_num)
      · nlinarith [hw.positive hnil]
    have ha : c.accumulateNumericDigits ds = .ok (digitsValue ds) :=
      accumulate_ok le_rfl (by rw [← digitsValue]; nlinarith)
    rw [bind_ok ha, Int.toNat_natCast, checked_ok ⟨by omega, hf⟩, bind_some,
      hp, checked_ok ⟨by omega, by exact_mod_cast hr⟩]
    rfl
  · have hne : ds ≠ [] := by
      rintro rfl
      simp only [hw.zero rfl, length_nil] at he
      omega
    rw [if_neg he]
    generalize (w + 1 - ds.length) * 4 + (c.scale : ℤ) = exponent at hv he ⊢
    have hna : -exponent = ((-exponent).toNat : ℕ) := (Int.toNat_of_nonneg (by omega)).symm
    have hp : digitsValue ds = (r * 10 ^ (-exponent).toNat : ℕ) := by
      have hs : (digitsValue ds : ℚ) = r * 10 ^ (-exponent) := by
        rw [← hv, mul_assoc, ← zpow_add₀ (by norm_num), add_neg_cancel, zpow_zero, mul_one]
      rw [hna] at hs
      exact_mod_cast hs
    refine accumulateScaled_ok hw.digit ?_ hr hp
    rw [Nat.pos_iff_ne_zero]
    rintro rfl
    have hpo := hw.positive hne
    simp [hp] at hpo

variable {neg : Bool}

/-- A coefficient within the precision is returned. -/
lemma numericSendToI128_ok {w v : ℤ} (hw : WellFormed w ds) (hz : ds ≠ [] ∨ c.scale ≤ 34)
    (hr : v.natAbs < 10 ^ c.precision) (hv : (finite neg w ds).value = .finite (v / 10 ^ c.scale)) :
    c.numericSendToI128 neg w ds = .ok v := by
  have hl : v.natAbs < 10 ^ 38 := hr.trans_le (Nat.pow_le_pow_right (by norm_num) c.valid.2.1)
  have hs : digitsValue ds * (10000 : ℚ) ^ (w + 1 - ds.length) *
      10 ^ c.scale = (if neg then -1 else 1) * v := by
    have hnu := (eq_div_iff (by positivity)).mp (NumericValue.finite.inj hv)
    rw [← hnu]
    cases neg <;> simp
  have hn : (0 : ℚ) ≤ (if neg then -1 else 1) * v := by
    have hd : (0 : ℚ) ≤ digitsValue ds := by exact_mod_cast le_digitsValue_from ds le_rfl
    rw [← hs]
    exact mul_nonneg (mul_nonneg hd (zpow_nonneg (by norm_num) _)) (by positivity)
  have hsa : (v.natAbs : ℤ) = if neg then -v else v := by
    cases neg with
    | false => exact Int.natAbs_of_nonneg (by simpa using hn)
    | true => exact Int.ofNat_natAbs_of_nonpos (by simpa using hn)
  have hc : (if neg then -1 else 1) * (v : ℚ) = (v.natAbs : ℕ) := by
    rw [← Int.cast_natCast, hsa]
    cases neg <;> simp
  have hu := unscaledDigits_ok hw hz (by omega) (hs.trans hc)
  have hsi : c.withSign neg v.natAbs = .ok v := by
    rw [hsa, withSign]
    cases neg with
    | false => rfl
    | true => rw [if_pos rfl, if_pos rfl, neg_neg, checked_ok ⟨by omega, by omega⟩]
  unfold numericSendToI128
  rw [bind_ok hu, bind_ok hsi, withinPrecision]
  have hb : (v.natAbs : ℤ) < 10 ^ c.precision := by exact_mod_cast hr
  rw [if_pos ⟨by omega, by omega⟩]

lemma numericSendToI128_range {w v : ℤ} (h : c.numericSendToI128 neg w ds = .ok v) :
    v.natAbs < 10 ^ c.precision := by
  obtain ⟨u, -, hr⟩ := bind_eq_ok h
  obtain ⟨s, -, hl⟩ := bind_eq_ok hr
  unfold withinPrecision at hl
  split_ifs at hl with hb
  · cases hl
    have hp : ((10 ^ c.precision : ℕ) : ℤ) = 10 ^ c.precision := by push_cast; rfl
    omega
  · cases hl

/-- From scale 35 on, a zero is refused: the power of ten it is multiplied by overflows. -/
lemma zero_refused {v : ℤ} (hs : 34 < c.scale) : c.numericSendToI128 neg 0 [] ≠ .ok v := by
  intro h
  obtain ⟨u, hu, -⟩ := bind_eq_ok h
  have he : ((0 : ℤ) + 1 - ([] : List ℕ).length) * 4 + (c.scale : ℤ) = ((c.scale + 4 : ℕ) : ℤ) := by
    simp only [length_nil]
    omega
  have hp : ¬ (10 : ℤ) ^ (c.scale + 4) < 2 ^ 127 := by
    have hle : (10 : ℤ) ^ 39 ≤ 10 ^ (c.scale + 4) := pow_le_pow_right₀ (by norm_num) (by omega)
    omega
  have hn : checked (10 ^ (c.scale + 4)) = none := if_neg fun hb => hp hb.2
  unfold unscaledDigits at hu
  rw [he, if_pos (Int.natCast_nonneg _), Int.toNat_natCast] at hu
  obtain ⟨o, -, hf⟩ := bind_eq_ok hu
  rw [hn] at hf
  cases hf

end Complete

/-- Decoding returns exactly the coefficients within the precision, and gives every
Decimal128 back, except for zero from scale 35 on and values without a NUMERIC. -/
theorem numericSendToI128_complete_iff (codec : Decimal128NumericCodec) {negative : Bool}
    {weight : ℤ} {digits : List ℕ} (hwell : WellFormed weight digits) {unscaled : ℤ}
    (hrange : unscaled.natAbs < 10 ^ codec.precision) :
    ((∀ value, codec.numericSendToI128 negative weight digits = .ok value ↔
        (finite negative weight digits).value = .finite (value / 10 ^ codec.scale) ∧
          value.natAbs < 10 ^ codec.precision) ↔ digits ≠ [] ∨ codec.scale ≤ 34) ∧
    ((∃ external, NumericExternal.fromDecimal128 unscaled codec.scale = some external ∧
        codec.numericSendToI128 external.negative external.weight external.digits = .ok unscaled) ↔
      (unscaled ≠ 0 ∨ codec.scale ≤ 34) ∧ (unscaled.natAbs < 10 ^ 37 ∨ codec.scale % 4 ≠ 1)) := by
  constructor
  · constructor
    · intro ha
      by_contra hnot
      obtain ⟨hnil, hs⟩ := not_or.mp hnot
      obtain rfl := not_not.mp hnil
      obtain rfl := hwell.zero rfl
      refine zero_refused (not_le.mp hs) ((ha 0).mpr ⟨?_, by simp⟩)
      simp [value, digitsValue]
    · intro hz value
      constructor
      · intro h
        exact ⟨numericSendToI128_eq h, numericSendToI128_range h⟩
      · rintro ⟨hv, hl⟩
        exact numericSendToI128_ok hwell hz hl hv
  · have hl : unscaled.natAbs < 10 ^ 38 :=
      hrange.trans_le (Nat.pow_le_pow_right (by norm_num) codec.valid.2.1)
    rw [← fromDecimal128_isSome codec.scale hl, isSome_iff_exists, ← exists_and_left]
    refine exists_congr fun external => ?_
    rw [and_comm (a := _ ∨ _)]
    refine and_congr_right fun h => ?_
    obtain ⟨hv, -, hwell, hd⟩ := fromDecimal128_spec h
    have he : external.digits ≠ [] ↔ unscaled ≠ 0 := by
      simp [hd, Nat.digits_eq_nil_iff_eq_zero, completed]
    rw [← he]
    constructor
    · intro hb
      by_contra hnot
      obtain ⟨hnil, hs⟩ := not_or.mp hnot
      have hnil := not_not.mp hnil
      rw [hnil, hwell.zero hnil] at hb
      exact zero_refused (not_le.mp hs) hb
    · intro hz
      exact numericSendToI128_ok hwell hz hrange hv

theorem zero_refused_at_38 :
    WellFormed 0 [] ∧ (finite false 0 []).value = .finite ((0 : ℤ) / 10 ^ 38) ∧
      numericSendToI128 ⟨38, 38, by decide⟩ false 0 [] =
        .error (.valueOutOfRange 38 38 "numeric value exceeds Decimal128") :=
  ⟨⟨by simp, by simp, fun _ => rfl⟩, by simp [value, digitsValue], rfl⟩

theorem numericSendToI128_complete_12345 :
    (∀ value, numericSendToI128 ⟨5, 2, by decide⟩ false 0 [123, 4500] =
        .ok value ↔ (finite false 0 [123, 4500]).value = .finite (value / 10 ^ 2) ∧
        value.natAbs < 10 ^ 5) ∧
    ∃ external, NumericExternal.fromDecimal128 (-12345) 2 = some external ∧
      numericSendToI128 ⟨5, 2, by decide⟩ external.negative external.weight
        external.digits = .ok (-12345) := by
  have hw : WellFormed 0 [123, 4500] := ⟨by simp, by simp, by simp⟩
  obtain ⟨he, hb⟩ := @numericSendToI128_complete_iff ⟨5, 2, by decide⟩ false _ _ hw
    (-12345) (by norm_num)
  exact ⟨he.mpr (.inl (by simp)), hb.mpr ⟨.inr (by simp), .inr (by simp)⟩⟩

end LagoDB.NumericCodec
