import Mathlib.Algebra.BigOperators.Group.List.Basic
import Mathlib.Algebra.GroupWithZero.Nat

/-!
# The build side of an adaptive hash join

Batches are staged and reserved as the hash table they would become, until one does not
fit. The join that is chosen then reads the staged batches, each of which gives its bytes
back, and what the input has left. The probe input, and what becomes of the join after it
was given its inputs, are left out.
-/
namespace LagoDB.AdaptiveJoin

open List

variable {B E : Type}

/-- What the memory pool answers to `try_resize`; `exhausted` stands for the errors whose
root is `ResourcesExhausted`. -/
inductive Resize (E : Type) where
  | granted
  | exhausted
  | failed (error : E)

/-- A batch with the bytes the memory counter adds for it, and the pool's answer to the
reservation that is made for it. -/
structure BuildBatch (B E : Type) where
  batch : B
  rows : ℕ
  bytes : ℕ
  resize : Resize E

/-- What the build stream yields: a batch or an error of its own. -/
abbrev Item (B E : Type) := Except E (BuildBatch B E)

/-- Each batch is kept with the bytes it holds in the reservation. -/
structure StagedBuild (B : Type) where
  batches : List (B × ℕ)
  rows : ℕ
  batchBytes : ℕ
  reservation : ℕ

inductive Join where
  | hash
  | sortMerge
  deriving DecidableEq

/-- A join, what is staged for it, and the rest of its build input. -/
structure JoinInput (B E : Type) where
  join : Join
  staged : StagedBuild B
  rest : List (Except E B)

section

-- `estimate` sizes the hash table for a number of rows
variable (limitBytes : ℕ) (estimate : ℕ → Except E ℕ)

def reserve (b : BuildBatch B E) (needed : ℕ) : Except E Bool :=
  if limitBytes < needed then .ok false
  else
    match b.resize with
    | .granted => .ok true
    | .exhausted => .ok false
    | .failed error => .error error

def StagedBuild.push (s : StagedBuild B) (b : BuildBatch B E) :
    Except E (Bool × StagedBuild B) := do
  let totalRows := s.rows + b.rows
  let totalBytes := s.batchBytes + b.bytes
  let needed := totalBytes + (← estimate totalRows)
  if ← reserve limitBytes b needed then
    pure (true, ⟨s.batches ++ [(b.batch, b.bytes)], totalRows, totalBytes, needed⟩)
  else pure (false, ⟨s.batches ++ [(b.batch, 0)], s.rows, s.batchBytes, s.batchBytes⟩)

def execute (s : StagedBuild B) : List (Item B E) → Except E (JoinInput B E)
  | [] => .ok ⟨.hash, s, []⟩
  | .error error :: _ => .error error
  | .ok b :: rest =>
    match s.push limitBytes estimate b with
    | .error error => .error error
    | .ok (true, s) => execute s rest
    | .ok (false, s) => .ok ⟨.sortMerge, s, rest.map (·.map (·.batch))⟩

/-- After the batches `done`, a hash table for them and `b` is within the limit, and the
pool accepts it. -/
def Fits (done : List (BuildBatch B E)) (b : BuildBatch B E) : Prop :=
  b.resize = .granted ∧ ∃ table, estimate ((done.map (·.rows)).sum + b.rows) = .ok table ∧
    (done.map (·.bytes)).sum + b.bytes + table ≤ limitBytes

/-- The stream, the estimate or, within the limit, the pool fails. -/
def Fails (done : List (BuildBatch B E)) (error : E) : Item B E → Prop
  | .error e => e = error
  | .ok b => estimate ((done.map (·.rows)).sum + b.rows) = .error error ∨
    ∃ table, estimate ((done.map (·.rows)).sum + b.rows) = .ok table ∧
      (done.map (·.bytes)).sum + b.bytes + table ≤ limitBytes ∧ b.resize = .failed error

def AllFit (done batches : List (BuildBatch B E)) : Prop :=
  ∀ first b later, batches = first ++ b :: later → Fits limitBytes estimate (done ++ first) b

end

/-- Taking batches over, each of which shrinks the reservation; `none` is an underflow. -/
def replay (reservation : ℕ) : List (B × ℕ) → Option (List B × ℕ)
  | [] => some ([], reservation)
  | (batch, bytes) :: rest =>
    if bytes ≤ reservation then
      (replay (reservation - bytes) rest).map fun (batches, left) => (batch :: batches, left)
    else none

/-- What the chosen join reads. -/
def JoinInput.stream (input : JoinInput B E) : Option (List (Except E B)) :=
  (replay input.staged.reservation input.staged.batches).map fun (batches, _) =>
    batches.map .ok ++ input.rest

/-- The batches `done` are staged and charged. -/
structure Staged (done : List (BuildBatch B E)) (s : StagedBuild B) : Prop where
  batches : s.batches = done.map fun b => (b.batch, b.bytes)
  rows : s.rows = (done.map (·.rows)).sum
  bytes : s.batchBytes = (done.map (·.bytes)).sum
  covered : s.batchBytes ≤ s.reservation

variable {limitBytes : ℕ} {estimate : ℕ → Except E ℕ} {s : StagedBuild B} {b : BuildBatch B E}
  {done batches : List (BuildBatch B E)} {rest : List (Item B E)}

lemma Staged.charged (h : Staged done s) : (s.batches.map (·.2)).sum = s.batchBytes := by
  rw [h.batches, h.bytes, map_map]
  rfl

section Push

attribute [local simp] StagedBuild.push reserve bind Except.bind pure Except.pure

lemma Staged.push (h : Staged done s) (hf : Fits limitBytes estimate done b) :
    ∃ t, s.push limitBytes estimate b = .ok (true, t) ∧ Staged (done ++ [b]) t := by
  obtain ⟨hr, table, he, hl⟩ := hf
  rw [← h.rows] at he
  rw [← h.bytes] at hl
  refine ⟨⟨s.batches ++ [(b.batch, b.bytes)], s.rows + b.rows, s.batchBytes + b.bytes,
    s.batchBytes + b.bytes + table⟩, ?_, ?_, ?_, ?_, Nat.le_add_right _ _⟩
  · simp [he, hr, Nat.not_lt.mpr hl]
  · simp [h.batches]
  · simp [h.rows]
  · simp [h.bytes]

lemma Fails.push (h : Staged done s) {e : E} (hf : Fails limitBytes estimate done e (.ok b)) :
    s.push limitBytes estimate b = .error e := by
  unfold Fails at hf
  rw [← h.rows, ← h.bytes] at hf
  rcases hf with he | ⟨table, he, hl, hr⟩
  · simp [he]
  · simp [he, hr, Nat.not_lt.mpr hl]

/-- A batch that does not fit is kept uncharged, unless something fails. -/
lemma Staged.push_stops (h : Staged done s) (hn : ¬Fits limitBytes estimate done b) :
    (∃ error, Fails limitBytes estimate done error (.ok b)) ∨ s.push limitBytes estimate b =
      .ok (false, ⟨s.batches ++ [(b.batch, 0)], s.rows, s.batchBytes, s.batchBytes⟩) := by
  unfold Fits at hn
  unfold Fails
  rw [← h.rows, ← h.bytes] at hn ⊢
  cases he : estimate (s.rows + b.rows) with
  | error error => exact .inl ⟨error, .inl he⟩
  | ok t =>
    by_cases hl : limitBytes < s.batchBytes + b.bytes + t
    · exact .inr (by simp [he, hl])
    cases hr : b.resize with
    | granted => exact absurd ⟨hr, t, he, Nat.not_lt.mp hl⟩ hn
    | exhausted => exact .inr (by simp [he, hl, hr])
    | failed error => exact .inl ⟨error, .inr ⟨t, he, Nat.not_lt.mp hl, hr⟩⟩

end Push

lemma AllFit.cons (h : AllFit limitBytes estimate done (b :: batches)) :
    Fits limitBytes estimate done b ∧ AllFit limitBytes estimate (done ++ [b]) batches := by
  constructor
  · simpa using h [] b batches rfl
  · intro f c l hb
    simpa using h (b :: f) c l (by rw [hb]; rfl)

/-- The loop stages the batches that fit. -/
lemma execute_fitting (rest : List (Item B E)) (h : Staged done s)
    (hf : AllFit limitBytes estimate done batches) :
    ∃ t, Staged (done ++ batches) t ∧ execute limitBytes estimate s (batches.map .ok ++ rest) =
      execute limitBytes estimate t rest := by
  induction batches generalizing done s with
  | nil => exact ⟨s, by simpa using h, rfl⟩
  | cons b batches ih =>
    obtain ⟨t, hp, ht⟩ := h.push hf.cons.1
    obtain ⟨u, hu, he⟩ := ih ht hf.cons.2
    refine ⟨u, by simpa using hu, ?_⟩
    rw [map_cons, cons_append, execute, hp]
    exact he

/-- Every input begins with batches that fit, up to its end or an item that does not. -/
lemma exists_fitting (limitBytes : ℕ) (estimate : ℕ → Except E ℕ) (done : List (BuildBatch B E))
    (items : List (Item B E)) :
    ∃ batches rest, items = batches.map .ok ++ rest ∧ AllFit limitBytes estimate done batches ∧
      ∀ b l, rest = .ok b :: l → ¬Fits limitBytes estimate (done ++ batches) b := by
  have hnil : AllFit limitBytes estimate done [] := fun first b l h => by simp at h
  induction items generalizing done with
  | nil => exact ⟨[], [], rfl, hnil, nofun⟩
  | cons i items ih =>
    cases i with
    | error error => exact ⟨[], _, rfl, hnil, nofun⟩
    | ok b =>
      by_cases hf : Fits limitBytes estimate done b
      · obtain ⟨batches, rest, rfl, hb, hn⟩ := ih (done ++ [b]) fun first b l h => by simp at h
        refine ⟨b :: batches, rest, rfl, ?_, by simpa using hn⟩
        intro first c l hc
        cases first with
        | nil =>
          cases hc
          simpa using hf
        | cons d first =>
          cases hc
          simpa using hb first c l rfl
      · refine ⟨[], _, rfl, hnil, ?_⟩
        rintro _ _ ⟨⟩
        simpa using hf

/-- Every replayed batch leaves enough for those that remain. -/
lemma replay_covers {r : ℕ} (f l : List (B × ℕ)) (h : ((f ++ l).map (·.2)).sum ≤ r) :
    ∃ left, replay r f = some (f.map (·.1), left) ∧ (l.map (·.2)).sum ≤ left := by
  induction f generalizing r with
  | nil => exact ⟨r, rfl, h⟩
  | cons e f ih =>
    rw [cons_append, map_cons, sum_cons] at h
    obtain ⟨left, hr, hl⟩ := @ih (r - e.2) (by omega)
    refine ⟨left, ?_, hl⟩
    rw [replay, if_pos (by omega), hr]
    rfl

/-- A join reads the items once and in order, and never returns more than is reserved. -/
structure Given (items : List (Item B E)) (input : JoinInput B E) : Prop where
  stream : input.stream = some (items.map (·.map (·.batch)))
  covered : ∀ first later, input.staged.batches = first ++ later →
    ∃ left, replay input.staged.reservation first = some (first.map (·.1), left) ∧
      (later.map (·.2)).sum ≤ left

lemma Given.of_covered {items : List (Item B E)} {i : JoinInput B E}
    (h : (i.staged.batches.map (·.2)).sum ≤ i.staged.reservation)
    (hb : (i.staged.batches.map (·.1)).map .ok ++ i.rest = items.map (·.map (·.batch))) :
    Given items i where
  stream := by
    obtain ⟨l, hr, -⟩ := replay_covers i.staged.batches [] (by simpa using h)
    rw [JoinInput.stream, hr, ← hb]
    rfl
  covered first later hs := replay_covers first later (hs ▸ h)

/-- What follows the batches `done`: the end, a failure, or a batch that does not fit. -/
lemma Staged.outcome (h : Staged done s)
    (hn : ∀ b l, rest = .ok b :: l → ¬Fits limitBytes estimate done b) :
    (rest = [] ∧ ∃ i, execute limitBytes estimate s rest = .ok i ∧ Given (done.map .ok ++ rest) i) ∨
    (∃ item l error, rest = item :: l ∧ Fails limitBytes estimate done error item ∧
      execute limitBytes estimate s rest = .error error) ∨
    ∃ i, execute limitBytes estimate s rest = .ok i ∧ i.join = .sortMerge ∧
      Given (done.map .ok ++ rest) i := by
  cases rest with
  | nil =>
    refine .inl ⟨rfl, _, rfl, .of_covered (h.charged.trans_le h.covered) ?_⟩
    simp [h.batches, Except.map]
  | cons item l =>
    refine .inr ?_
    cases item with
    | error error => exact .inl ⟨_, l, error, rfl, rfl, rfl⟩
    | ok b =>
      rcases h.push_stops (hn b l rfl) with ⟨error, hf⟩ | hp
      · refine .inl ⟨_, l, error, rfl, hf, ?_⟩
        rw [execute, Fails.push h hf]
      · -- the reservation falls back to the charged bytes and the batch is kept for nothing
        rw [execute, hp]
        refine .inr ⟨_, rfl, rfl, .of_covered ?_ ?_⟩
        · simp [h.charged]
        · simp [h.batches, Except.map]

/-- A hash join is chosen exactly when the input is made of batches that fit, a run fails
exactly when something fails after batches that fit, and a join is given all build items once
and in order and never returns more than is reserved. -/
theorem execute_complete (limitBytes : ℕ) (estimate : ℕ → Except E ℕ) (items : List (Item B E)) :
    let run := execute limitBytes estimate ⟨[], 0, 0, 0⟩ items
    ((∃ input, run = .ok input ∧ input.join = .hash) ↔
      ∃ batches, items = batches.map .ok ∧ AllFit limitBytes estimate [] batches) ∧
    (∀ error, run = .error error ↔ ∃ batches item later, items = batches.map .ok ++ item :: later ∧
      AllFit limitBytes estimate [] batches ∧ Fails limitBytes estimate batches error item) ∧
    ∀ input, run = .ok input → Given items input := by
  have hs : Staged ([] : List (BuildBatch B E)) ⟨[], 0, 0, 0⟩ := ⟨rfl, rfl, rfl, Nat.le_refl 0⟩
  -- the longest run of batches that fit decides the outcome
  obtain ⟨batches, rest, rfl, hf, hn⟩ := exists_fitting limitBytes estimate [] items
  obtain ⟨t, ht, he⟩ := execute_fitting rest hs hf
  have hout := ht.outcome hn
  dsimp only
  refine ⟨⟨fun ⟨input, h, hj⟩ => ?_, ?_⟩, fun error => ⟨fun h => ?_, ?_⟩, fun input h => ?_⟩
  · rw [he] at h
    rcases hout with ⟨rfl, -⟩ | ⟨item, later, error, rfl, -, hr⟩ | ⟨input', hr, hm, -⟩
    · exact ⟨batches, append_nil _, hf⟩
    · cases h.symm.trans hr
    · cases h.symm.trans hr
      cases hj.symm.trans hm
  · rintro ⟨fitting, hi, ha⟩
    obtain ⟨u, -, hu⟩ := execute_fitting [] hs ha
    rw [hi, ← append_nil (fitting.map _), hu]
    exact ⟨_, rfl, rfl⟩
  · rw [he] at h
    rcases hout with ⟨rfl, input, hr, -⟩ | ⟨item, later, error', rfl, hfail, hr⟩ | ⟨input, hr, -⟩
    · cases h.symm.trans hr
    · cases h.symm.trans hr
      exact ⟨batches, item, later, rfl, hf, hfail⟩
    · cases h.symm.trans hr
  · rintro ⟨fitting, item, later, hi, ha, hfail⟩
    obtain ⟨u, hs, hu⟩ := execute_fitting (item :: later) hs ha
    rw [hi, hu]
    cases item with
    | error e => rw [execute, show e = error from hfail]
    | ok b => rw [execute, Fails.push hs hfail]
  · rw [he] at h
    rcases hout with ⟨rfl, input', hr, hg⟩ | ⟨item, later, error, rfl, -, hr⟩ | ⟨input', hr, -, hg⟩
    · cases h.symm.trans hr
      exact hg
    · cases h.symm.trans hr
    · cases h.symm.trans hr
      exact hg

end LagoDB.AdaptiveJoin
