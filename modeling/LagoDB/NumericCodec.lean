import LagoDB.ExceptLoop
import Mathlib.Tactic.Ring
import Mathlib.Tactic.FieldSimp
import Mathlib.Tactic.IntervalCases

/-!
# NUMERIC values against Decimal128 columns

PostgreSQL sends a NUMERIC as base-10000 digits with a weight. A decimal column
stores coefficients of one fixed scale. A comparison value is bound by rescaling
its digits to that scale in checked 128-bit arithmetic; digits that do not fit
the scale or the precision are an error, never rounded away.

What the codec returns is the exact scaled value. The special values of NUMERIC
have no coefficient and are compared by their position relative to every finite
value.
-/
namespace LagoDB.NumericCodec

open ExceptLoop List Except

/-! ## Values -/

/-- The wire form of `numeric_send`: digits in base 10000, most significant
first, the first one counting `10000 ^ weight`. -/
inductive PgNumeric where
  | finite (negative : Bool) (weight : ℤ) (digits : List ℕ)
  | negativeInfinity
  | positiveInfinity
  | nan
  deriving DecidableEq

/-- NUMERIC in PostgreSQL's order: NaN is above everything. -/
inductive NumericValue where
  | negativeInfinity
  | finite (value : ℚ)
  | positiveInfinity
  | nan
  deriving DecidableEq

namespace NumericValue

def rank : NumericValue → ℕ
  | .negativeInfinity => 0
  | .finite _ => 1
  | .positiveInfinity => 2
  | .nan => 3

/-- `numeric_cmp`. -/
def order : NumericValue → NumericValue → Ordering
  | .finite a, .finite b => compare a b
  | a, b => compare a.rank b.rank

end NumericValue

/-- One more base-10000 digit behind a value. -/
def withDigit (value : ℤ) (digit : ℕ) : ℤ := value * 10000 + digit

def digitsValue (digits : List ℕ) : ℤ := digits.foldl withDigit 0

def PgNumeric.value : PgNumeric → NumericValue
  | .finite negative weight digits =>
    .finite ((if negative then -1 else 1) * digitsValue digits *
      (10000 : ℚ) ^ (weight + 1 - digits.length))
  | .negativeInfinity => .negativeInfinity
  | .positiveInfinity => .positiveInfinity
  | .nan => .nan

/-! ## The codec -/

inductive DecimalCodecError where
  | valueOutOfRange (precision scale : ℕ) (message : String)
  deriving DecidableEq

/-- A decimal shape that both Arrow and PostgreSQL accept. -/
structure Decimal128NumericCodec where
  precision : ℕ
  scale : ℕ
  valid : 1 ≤ precision ∧ precision ≤ 38 ∧ scale ≤ precision
  deriving DecidableEq

inductive Decimal128ComparisonValue where
  | finite (coefficient : ℤ)
  | negativeInfinity
  | positiveInfinity
  | nan
  deriving DecidableEq

/-- The result of a checked `i128` operation. -/
def checked (value : ℤ) : Option ℤ :=
  if -2 ^ 127 ≤ value ∧ value < 2 ^ 127 then some value else none

namespace Decimal128NumericCodec

variable (codec c : Decimal128NumericCodec)

def outOfRange {α : Type} (message : String) : Except DecimalCodecError α :=
  .error (.valueOutOfRange codec.precision codec.scale message)

/-- `checked_mul(radix).and_then(|value| value.checked_add(digit))`. -/
def pushDigit (coefficient radix digit : ℤ) : Except DecimalCodecError ℤ :=
  match (checked (coefficient * radix)).bind fun value => checked (value + digit) with
  | some value => .ok value
  | none => codec.outOfRange "numeric value exceeds Decimal128"

def accumulateNumericDigits (digits : List ℕ) : Except DecimalCodecError ℤ :=
  digits.foldlM (fun coefficient (digit : ℕ) => codec.pushDigit coefficient 10000 digit) 0

/-- The loop of `accumulate_scaled_numeric_digits`: digits behind `retained`
must be zero, and the last retained one loses its `digitPlaces` decimals. -/
def scaledDigits (retained digitPlaces : ℕ) :
    ℕ → List ℕ → ℤ → Except DecimalCodecError ℤ
  | _, [], coefficient => .ok coefficient
  | index, digit :: rest, coefficient =>
    if retained ≤ index then
      if digit ≠ 0 then
        codec.outOfRange "numeric value has more fractional digits than the decimal scale"
      else scaledDigits retained digitPlaces (index + 1) rest coefficient
    else if index + 1 = retained ∧ digitPlaces ≠ 0 then
      if digit % 10 ^ digitPlaces ≠ 0 then
        codec.outOfRange "numeric value has more fractional digits than the decimal scale"
      else do
        let coefficient ← codec.pushDigit coefficient (10000 / 10 ^ digitPlaces)
          (digit / 10 ^ digitPlaces)
        scaledDigits retained digitPlaces (index + 1) rest coefficient
    else do
      let coefficient ← codec.pushDigit coefficient 10000 digit
      scaledDigits retained digitPlaces (index + 1) rest coefficient

/-- `digits / 10 ^ decimalPlaces` without the wider intermediate coefficient. -/
def accumulateScaledNumericDigits (digits : List ℕ) (decimalPlaces : ℕ) :
    Except DecimalCodecError ℤ :=
  if digits.length ≤ decimalPlaces / 4 then
    codec.outOfRange "numeric value has more fractional digits than the decimal scale"
  else codec.scaledDigits (digits.length - decimalPlaces / 4) (decimalPlaces % 4) 0 digits 0

/-- The unsigned part of `numeric_send_to_i128`. -/
def unscaledDigits (weight : ℤ) (digits : List ℕ) : Except DecimalCodecError ℤ :=
  let exponent := (weight + 1 - digits.length) * 4 + codec.scale
  if 0 ≤ exponent then do
    let coefficient ← codec.accumulateNumericDigits digits
    match (checked (10 ^ exponent.toNat)).bind fun factor => checked (coefficient * factor) with
    | some value => pure value
    | none => codec.outOfRange "numeric value exceeds Decimal128"
  else codec.accumulateScaledNumericDigits digits (-exponent).toNat

def withSign (negative : Bool) (unscaled : ℤ) : Except DecimalCodecError ℤ :=
  if negative then
    match checked (-unscaled) with
    | some value => .ok value
    | none => codec.outOfRange "numeric value exceeds Decimal128"
  else .ok unscaled

def withinPrecision (unscaled : ℤ) : Except DecimalCodecError ℤ :=
  if -(10 ^ codec.precision - 1) ≤ unscaled ∧ unscaled ≤ 10 ^ codec.precision - 1 then .ok unscaled
  else codec.outOfRange "numeric value exceeds decimal precision"

def numericSendToI128 (negative : Bool) (weight : ℤ) (digits : List ℕ) :
    Except DecimalCodecError ℤ := do
  let unscaled ← codec.unscaledDigits weight digits
  let unscaled ← codec.withSign negative unscaled
  codec.withinPrecision unscaled

def encodeComparisonDatum : PgNumeric → Except DecimalCodecError Decimal128ComparisonValue
  | .finite negative weight digits =>
    (codec.numericSendToI128 negative weight digits).map .finite
  | .negativeInfinity => .ok .negativeInfinity
  | .positiveInfinity => .ok .positiveInfinity
  | .nan => .ok .nan

end Decimal128NumericCodec

/-! ## The scaled value is exact -/

section Exact

variable {c : Decimal128NumericCodec} {r : ℤ}

lemma checked_eq {v : ℤ} (h : checked v = some r) : r = v := by
  unfold checked at h
  split_ifs at h
  exact (Option.some.inj h).symm

variable {o : ℤ}

open Decimal128NumericCodec

lemma pushDigit_eq {radix d : ℤ} (h : c.pushDigit o radix d = .ok r) : r = o * radix + d := by
  unfold pushDigit at h
  split at h
  next v hv =>
    obtain ⟨p, hp, hs⟩ := Option.bind_eq_some_iff.mp hv
    have hr : v = r := ok.inj h
    rw [← hr, checked_eq hs, checked_eq hp]
  next => cases h

variable {ds : List ℕ}

lemma accumulate_from {s : ℤ} (h : ds.foldlM (fun o (d : ℕ) => c.pushDigit o 10000 d) s = .ok r) :
    r = ds.foldl withDigit s := by
  induction ds generalizing s with
  | nil => exact (ok.inj h).symm
  | cons d rest ih =>
    obtain ⟨n, hn, hr⟩ := bind_eq_ok h
    rw [ih hr, pushDigit_eq hn]
    rfl

variable {p : ℕ} {e i : ℕ}

lemma scaledDigits_done (hd : e ≤ i) (h : c.scaledDigits e p i ds o = .ok r) :
    r = o ∧ ∀ s : ℤ, ds.foldl withDigit s = s * 10000 ^ ds.length := by
  induction ds generalizing i with
  | nil => exact ⟨(ok.inj h).symm, fun s => by simp⟩
  | cons d rest ih =>
    rw [scaledDigits, if_pos hd] at h
    split_ifs at h with hdi
    · cases h
    · have hz : d = 0 := not_not.mp hdi
      obtain ⟨hr, hre⟩ := ih (Nat.le_succ_of_le hd) h
      refine ⟨hr, fun s => ?_⟩
      rw [foldl_cons, hre, hz, withDigit, length_cons]
      push_cast
      ring

lemma droppedPlaces_eq {d : ℕ} (o : ℤ) (hp : p < 4) (hdi : d % 10 ^ p = 0) :
    (o * (10000 / 10 ^ p) + d / 10 ^ p) * 10 ^ p = o * 10000 + d := by
  have hr : (10000 / 10 ^ p * 10 ^ p : ℤ) = 10000 := by interval_cases p <;> norm_num
  have hd : ((d : ℤ) / 10 ^ p * 10 ^ p : ℤ) = d := by
    refine Int.ediv_mul_cancel ?_
    exact_mod_cast Nat.dvd_of_mod_eq_zero hdi
  rw [add_mul, mul_assoc, hr, hd]

lemma scaledDigits_eq (hp : p < 4) (hlt : i < e) (hle : e ≤ i + ds.length)
    (h : c.scaledDigits e p i ds o = .ok r) :
    ds.foldl withDigit o = r * 10 ^ p * 10000 ^ (i + ds.length - e) := by
  induction ds generalizing i o with
  | nil => simp only [length_nil, Nat.add_zero] at hle; omega
  | cons d rest ih =>
    have hl : i + (d :: rest).length = i + 1 + rest.length := by rw [length_cons]; omega
    rw [hl] at hle ⊢
    rw [scaledDigits, if_neg (by omega)] at h
    rw [foldl_cons, withDigit]
    by_cases hla : i + 1 = e
    · -- the last retained digit: only zeros follow
      have hs : i + 1 + rest.length - e = rest.length := by omega
      rw [hs]
      split_ifs at h with hdr hd
      · cases h
      · obtain ⟨n, hn, hre⟩ := bind_eq_ok h
        obtain ⟨hr, hz⟩ := scaledDigits_done (by omega) hre
        rw [hz, hr, pushDigit_eq hn, droppedPlaces_eq o hp (not_not.mp hd)]
      · have hze : p = 0 := by
          by_contra hne
          exact hdr ⟨hla, hne⟩
        obtain ⟨n, hn, hre⟩ := bind_eq_ok h
        obtain ⟨hr, hz⟩ := scaledDigits_done (by omega) hre
        rw [hz, hr, pushDigit_eq hn, hze, pow_zero, mul_one]
    · rw [if_neg fun hb => hla hb.1] at h
      obtain ⟨n, hn, hre⟩ := bind_eq_ok h
      rw [← pushDigit_eq hn]
      exact ih (by omega) hle hre

lemma accumulateScaled_eq {ps : ℕ} (h : c.accumulateScaledNumericDigits ds ps = .ok r) :
    digitsValue ds = r * 10 ^ ps := by
  unfold accumulateScaledNumericDigits at h
  split_ifs at h with hf
  · cases h
  · have hv := scaledDigits_eq (Nat.mod_lt _ (by omega)) (by omega) (by omega) h
    have hg : 0 + ds.length - (ds.length - ps / 4) = ps / 4 := by omega
    have hp : ps = ps % 4 + 4 * (ps / 4) := by omega
    rw [hg] at hv
    have hb : (10000 : ℤ) = 10 ^ 4 := by norm_num
    rw [digitsValue, hv, mul_assoc]
    congr 1
    rw [hb, ← pow_mul, ← pow_add, ← hp]

lemma scaledPower_eq (c : Decimal128NumericCodec) (w : ℤ) (ds : List ℕ) :
    (10000 : ℚ) ^ (w + 1 - ds.length) * 10 ^ c.scale =
      (10 : ℚ) ^ ((w + 1 - ds.length) * 4 + c.scale) := by
  have hb : (10000 : ℚ) = (10 : ℚ) ^ (4 : ℤ) := by norm_num
  rw [hb, ← zpow_mul, zpow_add₀ (by norm_num), zpow_natCast, mul_comm (4 : ℤ)]

lemma unscaledDigits_eq {w : ℤ} (h : c.unscaledDigits w ds = .ok r) :
    (r : ℚ) = digitsValue ds * (10000 : ℚ) ^ (w + 1 - ds.length) * 10 ^ c.scale := by
  rw [mul_assoc, scaledPower_eq]
  unfold unscaledDigits at h
  dsimp only at h
  generalize (w + 1 - ds.length) * 4 + (c.scale : ℤ) = exponent at h ⊢
  split_ifs at h with he
  · obtain ⟨o, hc, hf⟩ := bind_eq_ok h
    split at hf
    next v hv =>
      obtain ⟨f, hpo, hp⟩ := Option.bind_eq_some_iff.mp hv
      have hr : v = r := ok.inj hf
      have hd : o = digitsValue ds := accumulate_from hc
      have hn : ((exponent.toNat : ℕ) : ℤ) = exponent := Int.toNat_of_nonneg he
      rw [← hr, checked_eq hp, checked_eq hpo, hd]
      push_cast
      rw [← zpow_natCast, hn]
    next => cases hf
  · have hn : (((-exponent).toNat : ℕ) : ℤ) = -exponent := Int.toNat_of_nonneg (by omega)
    have hv := accumulateScaled_eq h
    have hpl : (10 : ℚ) ^ (-exponent) = 10 ^ (-exponent).toNat := by rw [← zpow_natCast, hn]
    have hca : (digitsValue ds : ℚ) = r * (10 : ℚ) ^ (-exponent) := by
      rw [hv, hpl]
      push_cast
      rfl
    rw [hca, mul_assoc, ← zpow_add₀ (by norm_num), neg_add_cancel, zpow_zero, mul_one]

/-- A bound coefficient is the NUMERIC value at the column's scale, exactly. -/
lemma numericSendToI128_eq {neg : Bool} {w : ℤ} (h : c.numericSendToI128 neg w ds = .ok r) :
    (PgNumeric.finite neg w ds).value = .finite ((r : ℚ) / 10 ^ c.scale) := by
  obtain ⟨unscaled, hu, hre⟩ := bind_eq_ok h
  obtain ⟨signed, hs, hl⟩ := bind_eq_ok hre
  have hr : signed = r := by
    unfold withinPrecision at hl
    split_ifs at hl
    · exact ok.inj hl
    · cases hl
  have hsi : (signed : ℚ) = (if neg then -1 else 1) * unscaled := by
    unfold withSign at hs
    cases neg with
    | false =>
      have hsa : unscaled = signed := ok.inj hs
      simp [hsa]
    | true =>
      simp only [if_true] at hs
      split at hs
      next value hv =>
        have hsa : value = signed := ok.inj hs
        rw [← hsa, checked_eq hv]
        simp
      next => cases hs
  rw [PgNumeric.value, ← hr, hsi, unscaledDigits_eq hu]
  congr 1
  field_simp

end Exact

end LagoDB.NumericCodec
