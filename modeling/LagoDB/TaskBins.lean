import Mathlib.Algebra.Group.Nat.Defs
import Mathlib.Data.List.Induction
import Mathlib.Data.List.Perm.Basic
import Mathlib.Order.Nat
import LagoDB.ExceptLoop

/-!
# Grouping the ranges of a scan

Ranges are packed first-fit into a bounded window of open bins. When the window overflows,
its largest bin is emitted as a group.
-/
namespace LagoDB.TaskBins

open List

variable {R : Type}

inductive ScanError where
  | workerPayload (message : String)
  -- an `expect` of the source fires
  | panicked (message : String)
  deriving DecidableEq

structure TaskBin where
  weight : ℕ
  tasks : List ℕ

open TaskBin

def saturatingAdd (a b : ℕ) : ℕ := min (a + b) (2 ^ 64 - 1)

def TaskBin.push (bin : TaskBin) (rangeId weight : ℕ) : TaskBin :=
  ⟨saturatingAdd bin.weight weight, bin.tasks ++ [rangeId]⟩

structure TaskGrouping where
  targetSize : ℕ
  lookback : ℕ

/-- What `group` has between two ranges. -/
structure Packing (R : Type) where
  ranges : List R
  bins : List TaskBin
  groups : List (List ℕ)

/-- The first bin with room for the weight takes the range. -/
def pushFirst (targetSize rangeId weight : ℕ) : List TaskBin → Option (List TaskBin)
  | [] => none
  | bin :: rest =>
    if saturatingAdd bin.weight weight ≤ targetSize then some (bin.push rangeId weight :: rest)
    else (pushFirst targetSize rangeId weight rest).map (bin :: ·)

def heavier (largest : Option (ℕ × ℕ)) (bin : TaskBin × ℕ) : Option (ℕ × ℕ) :=
  match largest with
  | some (index, weight) =>
    if bin.1.weight ≤ weight then some (index, weight) else some (bin.2, bin.1.weight)
  | none => some (bin.2, bin.1.weight)

def inventoryExceeded : ScanError := .workerPayload "Iceberg range inventory exceeds u32"

def TaskGrouping.visit (g : TaskGrouping) (s : Packing R) (range : R × ℕ) :
    Except ScanError (Packing R) :=
  if 2 ^ 32 ≤ s.ranges.length then .error inventoryExceeded
  else
    let ranges := s.ranges ++ [range.1]
    match pushFirst g.targetSize s.ranges.length range.2 s.bins with
    | some bins => .ok ⟨ranges, bins, s.groups⟩
    | none =>
      let bins := s.bins ++ [push ⟨0, []⟩ s.ranges.length range.2]
      if g.lookback < bins.length then
        match bins.zipIdx.foldl heavier none with
        | none => .error (.panicked "a bin was added immediately above")
        | some (largest, _) =>
          match bins[largest]? with
          | none => .error (.panicked "largest bin index came from this deque")
          | some bin => .ok ⟨ranges, bins.eraseIdx largest, s.groups ++ [bin.tasks]⟩
      else .ok ⟨ranges, bins, s.groups⟩

structure GroupedTaskRanges (R : Type) where
  ranges : List R
  groups : List (List ℕ)

def TaskGrouping.pack (g : TaskGrouping) (ranges : List (R × ℕ)) : Except ScanError (Packing R) :=
  ranges.foldlM g.visit ⟨[], [], []⟩

/-- The visited ranges come with their weights. -/
def TaskGrouping.group (g : TaskGrouping) (ranges : List (R × ℕ)) :
    Except ScanError (GroupedTaskRanges R) := do
  let s ← g.pack ranges
  let groups := s.groups ++ s.bins.map (·.tasks)
  pure ⟨s.ranges, if groups.isEmpty then [[]] else groups⟩

/-! ## The packing invariant -/

def totalWeight (ranges : List (R × ℕ)) (tasks : List ℕ) : ℕ :=
  tasks.foldl (fun total rangeId => saturatingAdd total ((ranges.map (·.2)).getD rangeId 0)) 0

/-- A group of increasing ids below `count` that fits the target unless it is one range. -/
structure IsGroup (targetSize : ℕ) (ranges : List (R × ℕ)) (count : ℕ) (tasks : List ℕ) :
    Prop where
  increasing : tasks.Pairwise (· < ·)
  visited : ∀ rangeId ∈ tasks, rangeId < count
  fits : 1 < tasks.length → totalWeight ranges tasks ≤ targetSize

structure IsBin (targetSize : ℕ) (ranges : List (R × ℕ)) (count : ℕ) (bin : TaskBin) : Prop
    extends IsGroup targetSize ranges count bin.tasks where
  weight : bin.weight = totalWeight ranges bin.tasks

/-- What holds after the first `count` ranges. -/
structure Packed (g : TaskGrouping) (ranges : List (R × ℕ)) (count : ℕ) (s : Packing R) :
    Prop where
  inventory : s.ranges = (ranges.take count).map (·.1)
  bins : ∀ bin ∈ s.bins, IsBin g.targetSize ranges count bin
  groups : ∀ tasks ∈ s.groups, IsGroup g.targetSize ranges count tasks
  window : s.bins.length ≤ g.lookback

/-- Only the limit of the inventory stops the loop. -/
def Bounded (g : TaskGrouping) (ranges : List (R × ℕ)) (count : ℕ) :
    Except ScanError (Packing R) → Prop
  | .ok s => Packed g ranges count s
  | .error error => error = inventoryExceeded ∧ 2 ^ 32 < ranges.length

variable {g : TaskGrouping} {rs : List (R × ℕ)} {targetSize n : ℕ} {range : R × ℕ}

lemma IsGroup.later {ts : List ℕ} (h : IsGroup targetSize rs n ts) :
    IsGroup targetSize rs (n + 1) ts where
  increasing := h.increasing
  visited rangeId hm := Nat.lt_succ_of_lt (h.visited rangeId hm)
  fits := h.fits

lemma IsBin.later {bin : TaskBin} (h : IsBin targetSize rs n bin) :
    IsBin targetSize rs (n + 1) bin :=
  ⟨h.toIsGroup.later, h.weight⟩

/-- A range goes to a bin that is empty or has room for it. -/
lemma IsBin.push {bin : TaskBin} (h : IsBin targetSize rs n bin) (hr : rs[n]? = some range)
    (hf : bin.tasks = [] ∨ saturatingAdd bin.weight range.2 ≤ targetSize) :
    IsBin targetSize rs (n + 1) (bin.push n range.2) := by
  have ht : saturatingAdd bin.weight range.2 = totalWeight rs (bin.tasks ++ [n]) := by
    simp [totalWeight, h.weight, hr]
  refine ⟨⟨pairwise_append.mpr ⟨h.increasing, pairwise_singleton _ _, ?_⟩, ?_, ?_⟩, ht⟩
  · simpa using h.visited
  · refine forall_mem_append.mpr ⟨h.later.visited, ?_⟩
    simp
  · intro hl
    rcases hf with he | hf
    · simp [TaskBin.push, he] at hl
    · exact ht.ge.trans hf

lemma pushFirst_spec (hr : rs[n]? = some range) {bs p : List TaskBin}
    (h : ∀ bin ∈ bs, IsBin targetSize rs n bin) (hp : pushFirst targetSize n range.2 bs = some p) :
    p.length = bs.length ∧ ∀ bin ∈ p, IsBin targetSize rs (n + 1) bin := by
  induction bs generalizing p with
  | nil => cases hp
  | cons f r ih =>
    obtain ⟨hfi, hre⟩ := forall_mem_cons.mp h
    rw [pushFirst] at hp
    split_ifs at hp with hf
    · cases hp
      exact ⟨rfl, forall_mem_cons.mpr ⟨hfi.push hr (.inr hf), fun bin hb => (hre bin hb).later⟩⟩
    · obtain ⟨m, hm, rfl⟩ := Option.map_eq_some_iff.mp hp
      obtain ⟨hl, hmo⟩ := ih hre hm
      exact ⟨congrArg (· + 1) hl, forall_mem_cons.mpr ⟨hfi.later, hmo⟩⟩

/-- The fold over a non-empty window finds one of its bins. -/
lemma largest_spec {bs : List TaskBin} (hb : bs ≠ []) :
    ∃ l w, bs.zipIdx.foldl heavier none = some (l, w) ∧ l < bs.length := by
  induction bs using reverseRecOn with
  | nil => exact absurd rfl hb
  | append_singleton f last ih =>
    rw [zipIdx_append, foldl_append, length_append]
    rcases eq_or_ne f [] with rfl | hn
    · exact ⟨0, last.weight, rfl, Nat.one_pos⟩
    · obtain ⟨l, w, hf, hl⟩ := ih hn
      simp only [hf, zipIdx_singleton, foldl_cons, foldl_nil, heavier, length_singleton]
      split_ifs
      · exact ⟨l, w, rfl, by omega⟩
      · exact ⟨_, last.weight, rfl, by omega⟩

lemma Packed.visit {s : Packing R} (h : Packed g rs n s)
    (hr : rs[n]? = some range) : Bounded g rs (n + 1) (g.visit s range) := by
  have hc : n < rs.length := (List.getElem?_eq_some_iff.mp hr).1
  have hl : s.ranges.length = n := by rw [h.inventory, length_map, length_take_of_le hc.le]
  have hi : s.ranges ++ [range.1] = (rs.take (n + 1)).map (·.1) := by
    rw [take_add_one, hr, map_append, ← h.inventory]
    rfl
  have hg : ∀ ts ∈ s.groups, IsGroup g.targetSize rs (n + 1) ts :=
    fun ts ht => (h.groups ts ht).later
  rw [TaskGrouping.visit, hl]
  split_ifs with hm
  · exact ⟨rfl, hm.trans_lt hc⟩
  · cases hp : pushFirst g.targetSize n range.2 s.bins with
    | some bs =>
      obtain ⟨hle, hb⟩ := pushFirst_spec hr h.bins hp
      exact ⟨hi, hb, hg, hle.trans_le h.window⟩
    | none =>
      have he : IsBin g.targetSize rs n ⟨0, []⟩ := ⟨⟨.nil, by simp, by simp⟩, rfl⟩
      have hn : ∀ bin ∈ s.bins ++ [push ⟨0, []⟩ n range.2],
          IsBin g.targetSize rs (n + 1) bin :=
        forall_mem_append.mpr ⟨fun bin hb => (h.bins bin hb).later,
          forall_mem_singleton.mpr (he.push hr (.inl rfl))⟩
      have hle : (s.bins ++ [push ⟨0, []⟩ n range.2]).length ≤ g.lookback + 1 := by
        simpa using h.window
      dsimp only
      generalize s.bins ++ [push ⟨0, []⟩ n range.2] = bs at hn hle
      split_ifs with ho
      · obtain ⟨l, w, hf, hla⟩ := largest_spec (ne_nil_of_length_pos (Nat.zero_lt_of_lt ho))
        simp only [hf, getElem?_eq_getElem hla]
        refine ⟨hi, fun bin hb => hn bin (mem_of_mem_eraseIdx hb), ?_, ?_⟩
        · exact forall_mem_append.mpr
            ⟨hg, forall_mem_singleton.mpr (hn _ (getElem_mem hla)).toIsGroup⟩
        · simp only [length_eraseIdx_of_lt hla]
          omega
      · exact ⟨hi, hn, hg, by simpa using ho⟩

lemma Packed.run {s : Packing R} {rest : List (R × ℕ)} (h : Packed g rs n s)
    (hr : rs.drop n = rest) : Bounded g rs (n + rest.length) (rest.foldlM g.visit s) := by
  induction rest generalizing n s with
  | nil => exact h
  | cons range rest ih =>
    have hc : rs[n]? = some range := by rw [← head?_drop, hr, head?_cons]
    have hd : rs.drop (n + 1) = rest := by rw [← tail_drop, hr, tail_cons]
    have hv := h.visit hc
    rw [foldlM_cons, length_cons, ← Nat.succ_add_eq_add_succ]
    generalize g.visit s range = step at hv
    cases step with
    | error error => exact hv
    | ok s' => exact ih hv hd

lemma pack_bounded (g : TaskGrouping) (rs : List (R × ℕ)) : Bounded g rs rs.length (g.pack rs) := by
  have h : Packed g rs 0 ⟨[], [], []⟩ := ⟨rfl, by simp, by simp, Nat.zero_le _⟩
  exact rs.length.zero_add ▸ h.run drop_zero

/-- The window is bounded after every range, the groups keep the bounds, and the only error
is that of the inventory's own limit. -/
theorem group_bounded (g : TaskGrouping) (ranges : List (R × ℕ)) :
    (∀ (visited : List (R × ℕ)) s, g.pack visited = .ok s → s.bins.length ≤ g.lookback) ∧
      match g.group ranges with
      | .ok grouped => grouped.ranges = ranges.map (·.1) ∧
          ∀ tasks ∈ grouped.groups, IsGroup g.targetSize ranges ranges.length tasks
      | .error error => error = inventoryExceeded ∧
          2 ^ 32 < ranges.length := by
  refine ⟨fun visited s hs => ?_, ?_⟩
  · have h := pack_bounded g visited
    rw [hs] at h
    exact h.window
  · have h := pack_bounded g ranges
    unfold TaskGrouping.group
    generalize g.pack ranges = packed at h
    cases packed with
    | error error => exact h
    | ok s =>
      refine ⟨by simpa using h.inventory, ?_⟩
      split_ifs with he
      · exact forall_mem_singleton.mpr ⟨.nil, by simp, by simp⟩
      · exact forall_mem_append.mpr
          ⟨h.groups, forall_mem_map.mpr fun bin hb => (h.bins bin hb).toIsGroup⟩

/-! ## No range is lost -/

/-- The ids in groups and open bins. -/
def Packing.ids (s : Packing R) : List ℕ := (s.groups ++ s.bins.map (·.tasks)).flatten

lemma pushFirst_ids {w : ℕ} {bs p : List TaskBin} (h : pushFirst targetSize n w bs = some p) :
    (p.map (·.tasks)).flatten ~ n :: (bs.map (·.tasks)).flatten := by
  induction bs generalizing p with
  | nil => cases h
  | cons f r ih =>
    rw [pushFirst] at h
    split_ifs at h
    · cases h
      simp [push]
    · obtain ⟨m, hm, rfl⟩ := Option.map_eq_some_iff.mp h
      exact ((ih hm).append_left f.tasks).trans perm_middle

lemma visit_ids {s t : Packing R} (h : g.visit s range = .ok t) :
    t.ids ~ s.ranges.length :: s.ids ∧ t.ranges = s.ranges ++ [range.1] := by
  unfold TaskGrouping.visit at h
  split_ifs at h
  split at h
  · next bs hp =>
    cases h
    simpa [Packing.ids] using ((pushFirst_ids hp).append_left _).trans perm_middle
  · -- the new bin is the last one of the window
    have hn : (s.groups ++ (s.bins ++ [push ⟨0, []⟩ s.ranges.length range.2]).map
        (·.tasks)).flatten ~ s.ranges.length :: s.ids := by
      simp [Packing.ids, push, ← append_assoc]
    dsimp only at h
    generalize s.bins ++ [push ⟨0, []⟩ s.ranges.length range.2] = bs at h hn
    split_ifs at h
    · split at h
      · cases h
      split at h
      · cases h
      · next hb =>
        cases h
        obtain ⟨hl, rfl⟩ := List.getElem?_eq_some_iff.mp hb
        have hp := ((getElem_cons_eraseIdx_perm hl).map (·.tasks)).flatten
        exact ⟨.trans (by simpa [Packing.ids] using hp.append_left s.groups.flatten) hn, rfl⟩
    · cases h
      exact ⟨hn, rfl⟩

lemma pack_ids {s : Packing R} (h : g.pack rs = .ok s) : s.ids ~ List.range s.ranges.length := by
  refine ExceptLoop.foldlM_eq_ok (I := fun _ (s : Packing R) => s.ids ~ List.range s.ranges.length)
    (fun range _ _ s t hs ht => ?_) [] .rfl h
  obtain ⟨hi, hr⟩ := visit_ids ht
  rw [hr, length_append, length_singleton, range_succ]
  exact hi.trans ((hs.cons _).trans (perm_append_singleton _ _).symm)

/-- Every range is in one group, and in it once. -/
theorem group_partitions (g : TaskGrouping) (ranges : List (R × ℕ)) :
    match g.group ranges with
    | .ok grouped => grouped.groups.flatten ~ List.range ranges.length
    | .error _ => 2 ^ 32 < ranges.length := by
  have h := pack_bounded g ranges
  unfold TaskGrouping.group
  cases hp : g.pack ranges with
  | error error => exact (hp ▸ h).2
  | ok s =>
    rw [hp] at h
    have hl : s.ranges.length = ranges.length := by simp [h.inventory]
    have hi := hl ▸ pack_ids hp
    change flatten (if _ then _ else _) ~ _
    split_ifs with he
    · rwa [Packing.ids, isEmpty_iff.mp he] at hi
    · exact hi

end LagoDB.TaskBins
