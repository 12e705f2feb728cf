import LagoDB.NumericCoefficient

/-!
# Partial NUMERIC aggregation

A group is summed by several workers. Each keeps a count and a 256-bit sum; its state
travels as bytes and is merged into the state of another. Fewer than `2 ^ 63` rows of 128
bits cannot reach the bounds of the sum, so that no addition wraps around.
-/
namespace LagoDB.NumericAggregate

open ByteCodec ExceptLoop NumericCodec List

/-! ## The accumulator -/

structure NumericAccumulator where
  sum : ℤ
  count : ℕ
  scale : ℕ

namespace NumericAccumulator

def new (scale : ℕ) : NumericAccumulator := ⟨0, 0, scale⟩

/-- `i256::wrapping_add`. -/
def wrappingAdd (a b : ℤ) : ℤ := (a + b).bmod (256 ^ 32)

variable (accumulator : NumericAccumulator)

def addCount (added : ℕ) : Except String ℕ :=
  if accumulator.count + added < 2 ^ 64 then .ok (accumulator.count + added)
  else .error "numeric aggregate count overflow"

/-- A batch of nullable values; NULLs are passed over. -/
def updateValues (values : List (Option ℤ)) : Except String NumericAccumulator := do
  let count ← accumulator.addCount (values.filterMap id).length
  pure ⟨(values.filterMap id).foldl wrappingAdd accumulator.sum, count, accumulator.scale⟩

def encodedState : Bytes :=
  (leBytes 8 accumulator.count).reverse ++ (intBytes 32 accumulator.sum).reverse

def mergeState (state : Bytes) : Except String NumericAccumulator :=
  if state.length ≠ 40 then .error "invalid numeric aggregate state length"
  else do
    let count ← accumulator.addCount (leNat (state.take 8).reverse)
    pure ⟨wrappingAdd accumulator.sum (leInt (state.drop 8).reverse), count, accumulator.scale⟩

/-- `evaluate` for SUM: the wire value that `numeric_recv` is given, or NULL. -/
def evaluate : Except String (Option Bytes) :=
  if accumulator.count = 0 then .ok none
  else if accumulator.scale ≤ 0x3FFF then
    match
      fromCoefficient (.fromBeBytes (intBytes 32 accumulator.sum).reverse) accumulator.scale with
    | some wire => .ok (some wire)
    | none => .error "panicked"
  else .error "numeric aggregate scale exceeds PostgreSQL's binary NUMERIC limit"

end NumericAccumulator

/-- How an accumulator came about: batches are added, and states of others are merged. -/
inductive Aggregation where
  | new
  | update (before : Aggregation) (values : List (Option ℤ))
  | merge (before worker : Aggregation)

open Aggregation

namespace Aggregation

/-- All rows, of the workers as well. -/
def rows : Aggregation → List (Option ℤ)
  | .new => []
  | .update before values => before.rows ++ values
  | .merge before worker => before.rows ++ worker.rows

def run (scale : ℕ) : Aggregation → Except String NumericAccumulator
  | .new => .ok (.new scale)
  | .update before values => do (← before.run scale).updateValues values
  | .merge before worker => do
    let accumulator ← before.run scale
    accumulator.mergeState (← worker.run scale).encodedState

end Aggregation

/-! ## No addition wraps around -/

/-- Fewer than `2 ^ 63` Decimal128 values. -/
def Admissible (values : List ℤ) : Prop :=
  values.length < 2 ^ 63 ∧ ∀ value ∈ values, FitsInt 16 value

variable {vs os : List ℤ}

lemma Admissible.left (h : Admissible (vs ++ os)) : Admissible vs :=
  ⟨by have hl := h.1; rw [length_append] at hl; omega, fun v hv => h.2 v (mem_append_left _ hv)⟩

lemma Admissible.right (h : Admissible (vs ++ os)) : Admissible os :=
  ⟨by have hl := h.1; rw [length_append] at hl; omega, fun v hv => h.2 v (mem_append_right _ hv)⟩

lemma sum_bound (h : ∀ v ∈ vs, FitsInt 16 v) : |vs.sum| ≤ vs.length * 2 ^ 127 := by
  induction vs with
  | nil => simp
  | cons v r ih =>
    obtain ⟨hv, hr⟩ := forall_mem_cons.mp h
    have ha : |v| ≤ 2 ^ 127 := by
      unfold FitsInt at hv
      rw [abs_le]
      omega
    calc |v + r.sum| ≤ |v| + |r.sum| := abs_add_le ..
      _ ≤ 2 ^ 127 + r.length * 2 ^ 127 := add_le_add ha (ih hr)
      _ = (r.length + 1 : ℕ) * 2 ^ 127 := by push_cast; ring

lemma Admissible.fits (h : Admissible vs) : FitsInt 32 vs.sum := by
  have hb := abs_le.mp (sum_bound h.2)
  have hl := h.1
  unfold FitsInt
  omega

open NumericAccumulator

lemma wrappingAdd_eq {a b : ℤ} (h : FitsInt 32 (a + b)) : wrappingAdd a b = a + b :=
  Int.bmod_eq_of_le_mul_two h.1 h.2

lemma foldl_wrappingAdd (h : Admissible (vs ++ os)) :
    os.foldl wrappingAdd vs.sum = (vs ++ os).sum := by
  induction os generalizing vs with
  | nil => simp
  | cons v r ih =>
    rw [append_cons] at h ⊢
    have hs : (vs ++ [v]).sum = vs.sum + v := by simp
    have hf := h.left.fits
    rw [hs] at hf
    rw [foldl_cons, wrappingAdd_eq hf, ← hs, ih h]

/-! ## Every way to aggregate -/

/-- The accumulator holds the exact count and sum. -/
structure Exact (scale : ℕ) (values : List ℤ) (accumulator : NumericAccumulator) : Prop where
  count : accumulator.count = values.length
  sum : accumulator.sum = values.sum
  scale : accumulator.scale = scale

namespace Exact

variable {s : ℕ} {a : NumericAccumulator}

lemma addCount (h : Exact s vs a) (hr : Admissible (vs ++ os)) :
    a.addCount os.length = .ok (vs ++ os).length := by
  have hl := hr.1
  rw [length_append] at hl ⊢
  rw [NumericAccumulator.addCount, h.count, if_pos (by omega)]

lemma update {b : List (Option ℤ)} (h : Exact s vs a) (hr : Admissible (vs ++ b.filterMap id)) :
    ∃ next, a.updateValues b = .ok next ∧ Exact s (vs ++ b.filterMap id) next := by
  refine ⟨_, bind_ok (h.addCount hr), rfl, ?_, h.scale⟩
  rw [h.sum, foldl_wrappingAdd hr]

lemma merge {w : NumericAccumulator} (h : Exact s vs a)
    (hw : Exact s os w) (hr : Admissible (vs ++ os)) :
    ∃ next, a.mergeState w.encodedState = .ok next ∧ Exact s (vs ++ os) next := by
  have hc : w.count < 256 ^ 8 := by
    have hl := hr.right.1
    rw [hw.count]
    norm_num
    omega
  have ha := h.addCount hr
  rw [← hw.count] at ha
  have hf := hr.fits
  rw [sum_append] at hf
  have hs : leInt (intBytes 32 w.sum) = w.sum := leInt_intBytes (hw.sum ▸ hr.right.fits)
  unfold mergeState encodedState
  rw [if_neg (by simp), take_left' (by simp), drop_left' (by simp), reverse_reverse,
    reverse_reverse, leNat_leBytes hc, hs]
  refine ⟨_, bind_ok ha, rfl, ?_, h.scale⟩
  rw [h.sum, hw.sum, wrappingAdd_eq hf, sum_append]

end Exact

lemma Aggregation.run_exact (s : ℕ) (g : Aggregation) (h : Admissible (g.rows.filterMap id)) :
    ∃ a, g.run s = .ok a ∧ Exact s (g.rows.filterMap id) a := by
  induction g with
  | new => exact ⟨_, rfl, rfl, rfl, rfl⟩
  | update b vs ih =>
    rw [rows, filterMap_append] at h ⊢
    obtain ⟨a, hr, he⟩ := ih h.left
    rw [run, bind_ok hr]
    exact he.update h
  | merge b w ih iw =>
    rw [rows, filterMap_append] at h ⊢
    obtain ⟨a, hr, he⟩ := ih h.left
    obtain ⟨o, ho, hw⟩ := iw h.right
    rw [run, bind_ok hr, bind_ok ho]
    exact he.merge hw h

/-- However rows are split, added and merged, the count and the sum are exact, and so is
what SUM returns. -/
theorem aggregation_exact {rows : List (Option ℤ)} (hrows : rows.length < 2 ^ 63)
    (hvalues : ∀ value, some value ∈ rows → FitsInt 16 value) {scale : ℕ}
    (hscale : scale ≤ 0x3FFF) {aggregation : Aggregation} (hsplit : aggregation.rows.Perm rows) :
    ∃ accumulator, aggregation.run scale = .ok accumulator ∧
      accumulator.count = (rows.filterMap id).length ∧ accumulator.sum = (rows.filterMap id).sum ∧
      ((∀ row ∈ rows, row = none) → accumulator.evaluate = .ok none) ∧
      ((∃ row ∈ rows, row ≠ none) → ∃ external : NumericExternal,
        accumulator.evaluate = .ok (some external.wire) ∧
        external.value = .finite ((rows.filterMap id).sum / 10 ^ scale) ∧
        WellFormed external.weight external.digits ∧ FitsInt 2 external.weight) := by
  have hp := hsplit.filterMap id
  have ha : Admissible (aggregation.rows.filterMap id) := by
    constructor
    · exact (length_filterMap_le ..).trans_lt (hsplit.length_eq.trans_lt hrows)
    · intro value hv
      exact hvalues value (by simpa using hp.subset hv)
  obtain ⟨accumulator, hru, he⟩ := aggregation.run_exact scale ha
  have hc := he.count.trans hp.length_eq
  have hsu := he.sum.trans hp.sum_eq
  refine ⟨accumulator, hru, hc, hsu, fun hn => ?_, fun hs => ?_⟩
  · have hnil : rows.filterMap id = [] := filterMap_eq_nil_iff.mpr hn
    exact if_pos (by rw [hc, hnil, length_nil])
  · have hne : accumulator.count ≠ 0 := by
      obtain ⟨row, hr, hv⟩ := hs
      rw [hc, Ne, length_eq_zero_iff, filterMap_eq_nil_iff]
      exact fun hn => hv (hn row hr)
    obtain ⟨l, hl, hb, hv, hli⟩ := fromBeBytes_spec (he.sum ▸ ha.fits)
    obtain ⟨external, hwi, hd, -, hwe, hw, -⟩ :=
      fromCoefficient_spec (decide (accumulator.sum < 0)) hb hli hscale
    rw [hv, signed_natAbs, hsu] at hd
    refine ⟨external, ?_, hd, hwe, hw⟩
    unfold evaluate
    rw [if_neg hne, he.scale, if_pos hscale, hl, hwi]

/-- Two workers with a NULL each. -/
theorem aggregation_exact_of_workers :
    ∃ accumulator,
      (merge (.update .new [some 7, none]) (.update .new [none, some (-9)])).run 2 =
        .ok accumulator ∧ accumulator.count = 2 ∧ accumulator.sum = -2 := by
  have hs : (merge (.update .new [some 7, none])
      (.update .new [none, some (-9)])).rows.Perm [none, none, some 7, some (-9)] := by decide
  obtain ⟨accumulator, hr, hc, hsu, -⟩ := @aggregation_exact _ (by norm_num)
    (by simp [FitsInt]) 2 (by norm_num) _ hs
  exact ⟨accumulator, hr, hc, hsu⟩

end LagoDB.NumericAggregate
