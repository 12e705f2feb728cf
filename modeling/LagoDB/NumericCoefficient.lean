import LagoDB.ByteCodec
import LagoDB.NumericWire

/-!
# Aggregate coefficients as NUMERIC

The exact sum of a group is a signed 256-bit integer. It becomes a NUMERIC by long
division of its four limbs, with the same alignment as a Decimal128 value.
-/
namespace LagoDB.NumericCodec

open ByteCodec List

/-! ## Limbs -/

def limbBase : ℕ := 2 ^ 64

/-- `try_from(..).expect(..)` for an unsigned integer type with `limit` values. -/
def narrow (limit value : ℕ) : Option ℕ := if value < limit then some value else none

/-- The loop of `div_rem`, which goes from the highest limb, the last one, to the lowest. -/
def divideLimbs (divisor : ℕ) : List ℕ → Option (List ℕ × ℕ)
  | [] => some ([], 0)
  | limb :: higher => do
    let (quotients, remainder) ← divideLimbs divisor higher
    let value := remainder * limbBase + limb
    let quotient ← narrow limbBase (value / divisor)
    pure (quotient :: quotients, value % divisor)

def divRem (limbs : List ℕ) (divisor : ℕ) : Option (List ℕ × ℕ) := do
  let (quotients, remainder) ← divideLimbs divisor limbs
  let remainder ← narrow limbBase remainder
  pure (quotients, remainder)

def isZero (limbs : List ℕ) : Bool := limbs.all (· = 0)

/-- The loop of `decimal_digit_count`. A round takes at least one bit off the value. -/
def countGroups : ℕ → List ℕ → ℕ → ℕ → Option (ℕ × ℕ)
  | 0, _, _, _ => none
  | fuel + 1, limbs, groups, highest =>
    if isZero limbs then some (groups, highest) else do
      let (limbs, highest) ← divRem limbs 10000
      countGroups fuel limbs (groups + 1) highest

def groupDigitCount (group : ℕ) : ℕ :=
  if 1000 ≤ group then 4 else if 100 ≤ group then 3 else if 10 ≤ group then 2 else 1

def limbDigitCount (limbs : List ℕ) : Option ℕ := do
  let (groups, highest) ← countGroups 257 limbs 0 0
  pure ((groups - 1) * 4 + groupDigitCount highest)

def fillLimbs : ℕ → List ℕ → List ℕ → Option (List ℕ)
  | 0, limbs, groups => if isZero limbs then some groups else none
  | slots + 1, limbs, groups =>
    if isZero limbs then some groups else do
      let (limbs, remainder) ← divRem limbs 10000
      let digit ← narrow 65536 remainder
      fillLimbs slots limbs (digit :: groups)

/-! ## The wire value -/

structure SignedCoefficient where
  limbs : List ℕ
  negative : Bool

/-- The carry loop over the bytes, least significant first. -/
def increment : Bytes → Bytes
  | [] => []
  | byte :: rest => if byte.toNat + 1 < 256 then (byte + 1) :: rest else 0 :: increment rest

/-- Big-endian bytes; the limbs are read from the end. -/
def SignedCoefficient.fromBeBytes (bytes : Bytes) : SignedCoefficient :=
  let negative := bytes.head?.any (128 ≤ ·.toNat)
  let magnitude := if negative then increment (bytes.reverse.map (~~~·)) else bytes.reverse
  let limbs := (List.range 4).map fun index => leNat ((magnitude.drop (8 * index)).take 8)
  ⟨limbs, negative && !isZero limbs⟩

def be16 (value : ℕ) : Bytes := (leBytes 2 value).reverse

/-- The layout that `numeric_recv` reads. -/
def NumericExternal.wire (external : NumericExternal) : Bytes :=
  be16 external.digits.length ++ (intBytes 2 external.weight).reverse ++
    be16 (if external.negative then 0x4000 else 0) ++ be16 external.dscale ++
      external.digits.flatMap be16

def encode (digits : List ℕ) (weight : ℤ) (negative : Bool) (scale : ℕ) : Option Bytes := do
  let count ← narrow 65536 digits.length
  pure (be16 count ++ (intBytes 2 weight).reverse ++ be16 (if negative then 0x4000 else 0) ++
    be16 scale ++ digits.flatMap be16)

def i256NumericDigits : ℕ := 77 / 4 + 1

def alignedLimbs (limbs : List ℕ) (padding : ℕ) : Option (List ℕ) :=
  if padding = 0 then fillLimbs i256NumericDigits limbs []
  else do
    let (limbs, remainder) ← divRem limbs (10 ^ padding)
    let digit ← narrow 65536 (remainder * 10 ^ (4 - padding))
    fillLimbs (i256NumericDigits - 1) limbs [digit]

/-- Without a result an `expect` fires or an index is out of bounds. -/
def fromCoefficient (coefficient : SignedCoefficient) (scale : ℕ) : Option Bytes :=
  if isZero coefficient.limbs then encode [] 0 false scale else do
    let (weight, padding) := placement (← limbDigitCount coefficient.limbs) scale
    let digits ← alignedLimbs coefficient.limbs padding
    if FitsInt 2 weight then encode digits weight coefficient.negative scale else none

/-! ## Long division -/

def limbsValue (limbs : List ℕ) : ℕ := Nat.ofDigits limbBase limbs

def Limbs (limbs : List ℕ) : Prop := ∀ limb ∈ limbs, limb < limbBase

variable {limbs ls : List ℕ}

lemma narrow_eq {l v : ℕ} (h : v < l) : narrow l v = some v := if_pos h

lemma limbsValue_cons (l : ℕ) (hi : List ℕ) :
    limbsValue (l :: hi) = l + limbBase * limbsValue hi := by
  simp [limbsValue, Nat.ofDigits_cons]

lemma isZero_iff : isZero ls = true ↔ limbsValue ls = 0 := by
  simp only [isZero, all_eq_true, decide_eq_true_eq, limbsValue]
  constructor
  · intro h
    induction ls with
    | nil => rfl
    | cons l r ih =>
      obtain ⟨hl, hr⟩ := forall_mem_cons.mp h
      rw [Nat.ofDigits_cons, hl, ih hr]
      simp
  · exact Nat.digits_zero_of_eq_zero (by norm_num [limbBase])

lemma divideLimbs_spec (hl : Limbs ls) {ds : ℕ} (hpo : 0 < ds) :
    ∃ qs, divideLimbs ds ls = some (qs, limbsValue ls % ds) ∧
      limbsValue qs = limbsValue ls / ds ∧ Limbs qs := by
  induction ls with
  | nil => exact ⟨[], by simp [divideLimbs, limbsValue], by simp [limbsValue], by simp [Limbs]⟩
  | cons l higher ih =>
    obtain ⟨hli, hh⟩ := forall_mem_cons.mp hl
    obtain ⟨qs, hqu, hv, hb⟩ := ih hh
    have hs : limbsValue (l :: higher) = limbsValue higher % ds * limbBase + l +
        ds * (limbBase * limbsValue qs) := by
      rw [hv, limbsValue_cons]
      conv_lhs => rw [← Nat.mod_add_div (limbsValue higher) ds]
      ring
    have hq : (limbsValue higher % ds * limbBase + l) / ds < limbBase := by
      have hr : limbsValue higher % ds + 1 ≤ ds := Nat.mod_lt _ hpo
      have hp := Nat.mul_le_mul_right limbBase hr
      rw [Nat.add_mul] at hp
      refine Nat.div_lt_of_lt_mul ?_
      omega
    refine ⟨_ :: qs, ?_, ?_, forall_mem_cons.mpr ⟨hq, hb⟩⟩
    · rw [hs, Nat.add_mul_mod_self_left]
      refine Option.bind_eq_some_iff.mpr ⟨_, hqu, ?_⟩
      exact Option.bind_eq_some_iff.mpr ⟨_, narrow_eq hq, rfl⟩
    · rw [hs, Nat.add_mul_div_left _ _ hpo]
      rw [limbsValue_cons]

lemma divRem_spec (hl : Limbs ls) {ds : ℕ} (hp : 0 < ds) (hs : ds ≤ 10000) :
    ∃ qs, divRem ls ds = some (qs, limbsValue ls % ds) ∧
      limbsValue qs = limbsValue ls / ds ∧ Limbs qs := by
  obtain ⟨qs, hq, hsp⟩ := divideLimbs_spec hl hp
  have hr : limbsValue ls % ds < limbBase :=
    (Nat.mod_lt _ hp).trans_le (hs.trans (by norm_num [limbBase]))
  exact ⟨qs, by simp [divRem, hq, narrow_eq hr], hsp⟩

lemma digits_length {v : ℕ} (hne : v ≠ 0) : (Nat.digits 10 v).length =
      if v < 10000 then groupDigitCount v else (Nat.digits 10 (v / 10000)).length + 4 := by
  have hl (k : ℕ) := @Nat.digits_length_le_iff 10 k (by norm_num) v
  have h0 := hl 0
  have h1 := hl 1
  have h2 := hl 2
  have h3 := hl 3
  have h4 := hl 4
  split_ifs with hs
  · unfold groupDigitCount
    split_ifs <;> omega
  · have hq (k : ℕ) : (Nat.digits 10 v).length ≤ k + 4 ↔
        (Nat.digits 10 (v / 10000)).length ≤ k := by
      rw [hl, Nat.digits_length_le_iff (by norm_num), Nat.div_lt_iff_lt_mul (by norm_num), pow_add]
      norm_num
    have hu := hq (Nat.digits 10 (v / 10000)).length
    have hd := hq ((Nat.digits 10 v).length - 4)
    omega

lemma countGroups_spec {f : ℕ} (hl : Limbs ls) (hf : limbsValue ls < 2 ^ f) (gs highest : ℕ) :
    ∃ m l, countGroups (f + 1) ls gs highest = some (gs + m, l) ∧
      if limbsValue ls = 0 then m = 0 ∧ l = highest else 0 < m ∧
        (m - 1) * 4 + groupDigitCount l = (Nat.digits 10 (limbsValue ls)).length := by
  induction f generalizing ls gs highest with
  | zero =>
    have hz : limbsValue ls = 0 := by simpa using hf
    refine ⟨0, highest, ?_, ?_⟩
    · simp [countGroups, isZero_iff.mpr hz]
    · simp [hz]
  | succ f ih =>
    by_cases hz : limbsValue ls = 0
    · refine ⟨0, highest, ?_, ?_⟩
      · simp [countGroups, isZero_iff.mpr hz]
      · simp [hz]
    · obtain ⟨q, hq, hv, hb⟩ := @divRem_spec ls hl 10000 (by norm_num) le_rfl
      have hsm : limbsValue q < 2 ^ f := by omega
      obtain ⟨m, l, hc, hm⟩ := ih hb hsm (gs + 1) (limbsValue ls % 10000)
      refine ⟨m + 1, l, ?_, ?_⟩
      · rw [countGroups, if_neg (mt isZero_iff.mp hz), hq]
        simpa [Nat.add_assoc, Nat.add_comm 1] using hc
      · rw [if_neg hz, digits_length hz, ← hv]
        rw [hv] at hm ⊢
        by_cases hs : limbsValue ls < 10000
        · rw [if_pos (Nat.div_eq_of_lt hs), Nat.mod_eq_of_lt hs] at hm
          rw [if_pos hs, hm.2]
          omega
        · rw [if_neg (by omega)] at hm
          rw [if_neg hs]
          omega

lemma limbDigitCount_eq (hl : Limbs ls) (hb : limbsValue ls < 2 ^ 256) (hne : limbsValue ls ≠ 0) :
    limbDigitCount ls = some (Nat.digits 10 (limbsValue ls)).length := by
  obtain ⟨m, l, hc, hm⟩ := countGroups_spec hl hb 0 0
  rw [if_neg hne] at hm
  simp [limbDigitCount, hc, hm.2]

lemma fillLimbs_eq (ss : ℕ) (hl : Limbs ls) (gs : List ℕ) :
    fillLimbs ss ls gs = fillGroups ss (limbsValue ls) gs := by
  induction ss generalizing ls gs with
  | zero => simp [fillLimbs, fillGroups, isZero_iff]
  | succ ss ih =>
    rw [fillLimbs, fillGroups]
    simp only [isZero_iff]
    split_ifs with hz
    · rfl
    · obtain ⟨q, hq, hv, hb⟩ := @divRem_spec ls hl 10000 (by norm_num) le_rfl
      have hd : limbsValue ls % 10000 < 65536 := by omega
      rw [hq, ← hv, ← ih hb]
      simp [narrow_eq hd]

lemma alignedLimbs_eq {p : ℕ} (hl : Limbs ls) (hp : p < 4) :
    alignedLimbs ls p = alignedGroups i256NumericDigits (limbsValue ls) p := by
  unfold alignedLimbs alignedGroups
  split_ifs with hz
  · exact fillLimbs_eq _ hl []
  · have hpo : 10 ^ p * 10 ^ (4 - p) = 10000 := by
      rw [← pow_add, Nat.add_sub_cancel' hp.le]
      norm_num
    have hs : 10 ^ p ≤ 10000 := Nat.pow_le_pow_right (by norm_num : 0 < 10) hp.le
    obtain ⟨q, hq, hv, hb⟩ := divRem_spec hl (Nat.pow_pos (by norm_num) : 0 < 10 ^ p) hs
    have hd : limbsValue ls % 10 ^ p * 10 ^ (4 - p) < 65536 := by
      have hlt := Nat.mul_lt_mul_of_pos_right
        (Nat.mod_lt (limbsValue ls) (Nat.pow_pos (by norm_num) : 0 < 10 ^ p))
        (Nat.pow_pos (by norm_num) : 0 < 10 ^ (4 - p))
      omega
    rw [hq]
    simp only [Option.bind_eq_bind, Option.bind_some, narrow_eq hd, fillLimbs_eq _ hb, hv]
    rfl

lemma encode_eq {ds : List ℕ} (w : ℤ) (neg : Bool) (s : ℕ) (h : ds.length < 65536) :
    encode ds w neg s = some (NumericExternal.wire ⟨w, neg, s, ds⟩) := by
  rw [encode, narrow_eq h]
  rfl

lemma fromCoefficient_spec {sc : ℕ} (neg : Bool) (hl : Limbs ls)
    (hb : limbsValue ls ≤ 2 ^ 255) (hs : sc ≤ 0x3FFF) :
    ∃ xt : NumericExternal, fromCoefficient ⟨ls, neg⟩ sc = some xt.wire ∧
      xt.value = .finite ((if neg then -1 else 1) * limbsValue ls / 10 ^ sc) ∧
      xt.dscale = sc ∧ WellFormed xt.weight xt.digits ∧
      FitsInt 2 xt.weight ∧ xt.digits.length ≤ i256NumericDigits := by
  unfold fromCoefficient
  dsimp only
  by_cases hz : limbsValue ls = 0
  · rw [if_pos (isZero_iff.mpr hz), hz]
    refine ⟨⟨0, false, sc, []⟩, rfl, ?_, rfl, ⟨by simp, by simp, fun _ => rfl⟩, ?_, by simp⟩
    · simp [NumericExternal.value, PgNumeric.value, digitsValue]
    · simp [FitsInt]
  · obtain ⟨hwe, hv⟩ := completed_value sc hz
    have hf : completed (limbsValue ls) sc < 10000 ^ i256NumericDigits := by
      have hze : 10 ^ ((4 - sc % 4) % 4) ≤ 10 ^ 3 := Nat.pow_le_pow_right (by norm_num) (by omega)
      exact (Nat.mul_le_mul hb hze).trans_lt (by norm_num [i256NumericDigits])
    have hleng : (Nat.digits 10 (limbsValue ls)).length ≤ 77 := by
      rw [Nat.digits_length_le_iff (by norm_num)]
      exact hb.trans_lt (by norm_num)
    have hw : FitsInt 2 ((((Nat.digits 10 (limbsValue ls)).length : ℤ) - sc - 1) / 4) := by
      unfold FitsInt
      norm_num
      omega
    have hg := (Nat.digits_length_le_iff (by norm_num) _).mpr hf
    rw [if_neg (mt isZero_iff.mp hz), limbDigitCount_eq hl (hb.trans_lt (by norm_num)) hz,
      Option.bind_eq_bind, Option.bind_some, placement_eq]
    rw [alignedLimbs_eq hl (Nat.mod_lt _ (by norm_num)), alignedGroups_eq _ _ hz,
      if_pos hf, Option.bind_eq_bind, Option.bind_some, if_pos hw]
    refine ⟨_, encode_eq _ _ _ ?_, hv neg, rfl, hwe, hw, ?_⟩
    · rw [length_reverse]
      exact hg.trans_lt (by norm_num [i256NumericDigits])
    · rw [length_reverse]
      exact hg

/-! ## Two's complement -/

lemma leNat_complement (bs : Bytes) : leNat (bs.map (~~~·)) + leNat bs + 1 = 256 ^ bs.length := by
  induction bs with
  | nil => rfl
  | cons b r ih =>
    have hb : b.toNat < 256 := b.toNat_lt
    simp only [map_cons, leNat, length_cons, pow_succ, UInt8.toNat_not, UInt8.size]
    omega

lemma increment_spec {bs : Bytes} (h : leNat bs + 1 < 256 ^ bs.length) :
    leNat (increment bs) = leNat bs + 1 ∧ (increment bs).length = bs.length := by
  induction bs with
  | nil => simp [leNat] at h
  | cons b r ih =>
    have hb : b.toNat < 256 := b.toNat_lt
    rw [length_cons, leNat] at h
    rw [increment]
    split_ifs with hc
    · have hn : (b + 1).toNat = b.toNat + 1 := by exact Nat.mod_eq_of_lt hc
      refine ⟨?_, rfl⟩
      rw [leNat, leNat, hn]
      omega
    · obtain ⟨hv, hl⟩ := ih (by omega)
      refine ⟨?_, by rw [length_cons, length_cons, hl]⟩
      rw [leNat, leNat, hv, UInt8.toNat_zero]
      omega

lemma limbs_spec {n : ℕ} {bs : Bytes} (h : bs.length = 8 * n) :
    limbsValue ((List.range n).map fun i => leNat ((bs.drop (8 * i)).take 8)) = leNat bs ∧
      Limbs ((List.range n).map fun i => leNat ((bs.drop (8 * i)).take 8)) := by
  have hb : limbBase = 256 ^ 8 := by norm_num [limbBase]
  constructor
  · induction n generalizing bs with
    | zero =>
      obtain rfl := length_eq_zero_iff.mp h
      rfl
    | succ n ih =>
      have hlo : (bs.take 8).length = 8 := by rw [length_take]; omega
      have hr := @ih (bs.drop 8) (by rw [length_drop]; omega)
      simp only [drop_drop] at hr
      rw [range_succ_eq_map, map_cons, map_map, limbsValue_cons]
      have hs : ((fun i => leNat ((bs.drop (8 * i)).take 8)) ∘ Nat.succ) =
          fun i => leNat ((bs.drop (8 + 8 * i)).take 8) := by
        funext i
        simp only [Function.comp_apply, Nat.mul_succ, Nat.add_comm]
      rw [hs, hr, hb]
      nth_rewrite 3 [← take_append_drop 8 bs]
      rw [leNat_append, hlo, drop_zero]
  · intro l hl
    obtain ⟨i, -, rfl⟩ := mem_map.mp hl
    rw [hb]
    refine (leNat_lt _).trans_le (Nat.pow_le_pow_right (by norm_num) ?_)
    rw [length_take]
    omega

lemma highByte_iff (low : Bytes) (top : UInt8) :
    (low ++ [top]).reverse.head?.any (128 ≤ ·.toNat) = true ↔
      128 * 256 ^ low.length ≤ leNat (low ++ [top]) := by
  have hl := leNat_lt low
  rw [leNat_append, reverse_append]
  simp only [reverse_singleton, singleton_append, List.head?_cons, Option.any_some,
    decide_eq_true_eq, leNat, Nat.mul_zero, Nat.add_zero]
  constructor
  · intro h
    have hp := Nat.mul_le_mul_left (256 ^ low.length) h
    omega
  · intro h
    by_contra hs
    have hp := Nat.mul_le_mul_left (256 ^ low.length) (by omega : top.toNat + 1 ≤ 128)
    rw [Nat.mul_add] at hp
    omega

lemma fromBeBytes_spec {c : ℤ} (hr : FitsInt 32 c) :
    ∃ ls, SignedCoefficient.fromBeBytes (intBytes 32 c).reverse = ⟨ls, decide (c < 0)⟩ ∧
      Limbs ls ∧ limbsValue ls = c.natAbs ∧ limbsValue ls ≤ 2 ^ 255 := by
  have hna := leNat_intBytes 32 c
  have hl := length_intBytes 32 c
  generalize intBytes 32 c = bytes at hna hl
  unfold FitsInt at hr
  norm_num at hr hna
  have hsi : bytes.reverse.head?.any (128 ≤ ·.toNat) = decide (c < 0) := by
    rcases eq_nil_or_concat bytes with rfl | ⟨low, top, rfl⟩
    · cases hl
    · simp only [concat_eq_append, length_append, length_singleton] at hl hna ⊢
      have hlo : low.length = 31 := by omega
      rw [Bool.eq_iff_iff, highByte_iff, hlo]
      norm_num
      omega
  unfold SignedCoefficient.fromBeBytes
  rw [hsi, reverse_reverse]
  by_cases hneg : c < 0
  · have hc := leNat_complement bytes
    rw [hl] at hc
    obtain ⟨hv, hs⟩ := @increment_spec (bytes.map (~~~·)) (by
      rw [length_map, hl]
      norm_num
      omega)
    rw [length_map, hl] at hs
    obtain ⟨hli, hb⟩ := @limbs_spec 4 _ hs
    have hm := hli.trans hv
    have hn := mt isZero_iff.mp (hm.trans_ne (Nat.succ_ne_zero _))
    refine ⟨_, ?_, hb, ?_⟩
    · simp only [decide_eq_true hneg, if_true, Bool.eq_false_iff.mpr hn]
      rfl
    · rw [hm]
      omega
  · obtain ⟨hli, hb⟩ := @limbs_spec 4 bytes hl
    refine ⟨_, ?_, hb, ?_⟩
    · simp [hneg]
    · rw [hli]
      omega

/-- Every 256-bit coefficient becomes a NUMERIC. -/
theorem fromCoefficient_exact {coefficient : ℤ} {scale : ℕ} (hrange : FitsInt 32 coefficient)
    (hscale : scale ≤ 0x3FFF) :
    ∃ external : NumericExternal,
      fromCoefficient (.fromBeBytes (intBytes 32 coefficient).reverse) scale = some external.wire ∧
      external.value = .finite (coefficient / 10 ^ scale) ∧ external.dscale = scale ∧
      WellFormed external.weight external.digits ∧ FitsInt 2 external.weight ∧
      external.digits.length ≤ i256NumericDigits := by
  obtain ⟨limbs, hl, hb, hv, hli⟩ := fromBeBytes_spec hrange
  have hs := fromCoefficient_spec (decide (coefficient < 0)) hb hli hscale
  rw [hv, signed_natAbs] at hs
  rw [hl]
  exact hs

theorem fromCoefficient_exact_minimum :
    ∃ external : NumericExternal,
      fromCoefficient (.fromBeBytes (intBytes 32 (-2 ^ 255)).reverse) 5 = some external.wire ∧
      external.value = .finite ((-2 ^ 255 : ℤ) / 10 ^ 5) ∧ external.dscale = 5 ∧
      WellFormed external.weight external.digits ∧ FitsInt 2 external.weight ∧
      external.digits.length ≤ i256NumericDigits :=
  fromCoefficient_exact (by norm_num [FitsInt]) (by norm_num)

end LagoDB.NumericCodec
