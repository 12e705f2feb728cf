import LagoDB.BoundFilters

/-!
# Rebinding the filters of a rescanned relation

A rescan evaluates the dynamic values into a second buffer, binds all filters that depend
on them, and replaces their predicates only when every one of them is bound.
-/
namespace LagoDB.FilterRebinding

open Iceberg Function List

variable {P B V X : Type}

/-- A filter reads the slots of its range. -/
structure PlannedFilterRecord (P : Type) where
  planned : P
  contract : PushdownContract
  bindingRange : List ℕ

structure BoundFilter (B : Type) where
  predicate : B
  rescanStable : Bool
  staticValues : Bool

inductive RelationFilterBindingError (X : Type) where
  | provider (error : X)
  | exactValueNotRepresentable (filterIndex : ℕ)
  | raised

structure RuntimeValueState (V : Type) where
  values : ℕ → V
  pending : ℕ → V

structure RelationFilterBinding (B V : Type) where
  values : RuntimeValueState V
  bound : ℕ → Option (BoundFilter B)

/-- The loop over the dynamic slots, and whether PostgreSQL evaluates all of them. -/
def evaluateSlots (evaluate : ℕ → Option V) : List ℕ → (ℕ → V) → Bool × (ℕ → V)
  | [], pending => (true, pending)
  | slot :: rest, pending =>
    match evaluate slot with
    | none => (false, pending)
    | some value => evaluateSlots evaluate rest (update pending slot value)

section

-- a provider that cannot represent a filter with its values answers `none`
variable (bindFilter : P → List V → Except X (Option B)) (layout : List RuntimeValueSpec)

def dynamicSlots : List ℕ :=
  (range layout.length).filter fun slot =>
    layout[slot]?.any fun spec => !spec.sourceKind.isRescanStable

/-- The second buffer becomes the current one when all slots are evaluated. -/
def RuntimeValueState.rebindDynamic (state : RuntimeValueState V) (evaluate : ℕ → Option V) :
    Bool × RuntimeValueState V :=
  match evaluateSlots evaluate (dynamicSlots layout) state.pending with
  | (false, pending) => (false, ⟨state.values, pending⟩)
  | (true, pending) => (true, ⟨pending, state.values⟩)

def isStable (filter : PlannedFilterRecord P) : Bool :=
  (filter.bindingRange.filterMap (layout[·]?)).all (·.sourceKind.isRescanStable)

def bindRecord (values : ℕ → V) (filterIndex : ℕ) (filter : PlannedFilterRecord P) :
    Except (RelationFilterBindingError X) (Option (BoundFilter B)) :=
  match bindFilter filter.planned (filter.bindingRange.map values) with
  | .error error => .error (.provider error)
  | .ok (some predicate) =>
    .ok (some ⟨predicate, isStable layout filter,
      (filter.bindingRange.filterMap (layout[·]?)).all (·.sourceKind = .constant)⟩)
  | .ok none =>
    if filter.contract.requiresResidual then .ok none
    else .error (.exactValueNotRepresentable filterIndex)

def bindDynamicRecords (values : ℕ → V) : ℕ → List (PlannedFilterRecord P) →
    Except (RelationFilterBindingError X) (List (ℕ × Option (BoundFilter B)))
  | _, [] => .ok []
  | filterIndex, filter :: rest =>
    if isStable layout filter then bindDynamicRecords values (filterIndex + 1) rest
    else do
      let bound ← bindRecord bindFilter layout values filterIndex filter
      let pending ← bindDynamicRecords values (filterIndex + 1) rest
      pure ((filterIndex, bound) :: pending)

def replaceBound (bound : ℕ → Option (BoundFilter B)) :
    List (ℕ × Option (BoundFilter B)) → ℕ → Option (BoundFilter B)
  | [] => bound
  | (filterIndex, replacement) :: rest => replaceBound (update bound filterIndex replacement) rest

/-- `evaluate` is what PostgreSQL computes for the slots in this call. -/
def RelationFilterBinding.rebindDynamic (planned : List (PlannedFilterRecord P))
    (b : RelationFilterBinding B V) (evaluate : ℕ → Option V) :
    Except (RelationFilterBindingError X) Unit × RelationFilterBinding B V :=
  if dynamicSlots layout = [] then (.ok (), b)
  else
    match b.values.rebindDynamic layout evaluate with
    | (false, values) => (.error .raised, ⟨values, b.bound⟩)
    | (true, values) =>
      match bindDynamicRecords bindFilter layout values.values 0 planned with
      | .error error => (.error error, ⟨values, b.bound⟩)
      | .ok pending => (.ok (), ⟨values, replaceBound b.bound pending⟩)

end

/-! ## One call -/

lemma evaluateSlots_spec (ev : ℕ → Option V) (ss : List ℕ) (p : ℕ → V) :
    (∀ s ∉ ss, (evaluateSlots ev ss p).2 s = p s) ∧ ((evaluateSlots ev ss p).1 = true → ∀ s ∈ ss,
      ev s = some ((evaluateSlots ev ss p).2 s)) := by
  induction ss generalizing p with
  | nil => exact ⟨fun _ _ => rfl, by simp⟩
  | cons f r ih =>
    rw [evaluateSlots]
    cases he : ev f with
    | none => exact ⟨fun _ _ => rfl, by simp⟩
    | some v =>
      obtain ⟨hu, hv⟩ := ih (update p f v)
      refine ⟨fun s hs => ?_, fun ht s hs => ?_⟩
      · obtain ⟨hne, hr⟩ := not_or.mp (mt mem_cons.mpr hs)
        rw [hu s hr, update_of_ne hne]
      · by_cases hr : s ∈ r
        · exact hv ht s hr
        · obtain rfl : s = f := (mem_cons.mp hs).resolve_right hr
          rw [he, hu s hr, update_self]

variable {bf : P → List V → Except X (Option B)} {l : List RuntimeValueSpec}
  {p : List (PlannedFilterRecord P)}

/-- The replacements are those of the dynamic filters, in order. -/
lemma bindDynamicRecords_spec {vs : ℕ → V} {s : ℕ} {e : List (ℕ × Option (BoundFilter B))}
    (h : bindDynamicRecords bf l vs s p = .ok e) (b : ℕ → Option (BoundFilter B)) :
    (∀ i < s, replaceBound b e i = b i) ∧ ∀ i f, p[i]? = some f → if isStable l f then
          replaceBound b e (s + i) = b (s + i)
        else bindRecord bf l vs (s + i) f = .ok (replaceBound b e (s + i)) := by
  induction p generalizing s e b with
  | nil =>
    cases h
    exact ⟨fun _ _ => rfl, by simp⟩
  | cons first rest ih =>
    rw [bindDynamicRecords] at h
    split_ifs at h with hs
    · obtain ⟨hb, hr⟩ := ih h b
      refine ⟨fun i hi => hb i (by omega), fun i f hf => ?_⟩
      cases i with
      | zero =>
        cases hf
        rw [if_pos hs]
        exact hb _ (by omega)
      | succ i =>
        have hi := hr i f hf
        rwa [Nat.add_right_comm] at hi
    · obtain ⟨r, hfi, h⟩ := ExceptLoop.bind_eq_ok h
      obtain ⟨m, hm, h⟩ := ExceptLoop.bind_eq_ok h
      cases h
      obtain ⟨hb, hr⟩ := ih hm (update b s r)
      refine ⟨fun i hi => ?_, fun i f hf => ?_⟩
      · rw [replaceBound, hb i (by omega), update_of_ne (by omega)]
      · cases i with
        | zero =>
          cases hf
          rw [if_neg hs, Nat.add_zero, hfi, replaceBound, hb s (by omega), update_self]
        | succ i =>
          have hi := hr i f hf
          rwa [Nat.add_right_comm, update_of_ne (by omega)] at hi

/-- A filter that reads a dynamic slot makes a rescan evaluate it. -/
lemma dynamicSlots_ne_nil {f : PlannedFilterRecord P} (h : isStable l f = false) :
    dynamicSlots l ≠ [] := by
  obtain ⟨spec, hm, hs⟩ := all_eq_false.mp h
  obtain ⟨s, -, hg⟩ := mem_filterMap.mp hm
  have hl : s < l.length := (List.getElem?_eq_some_iff.mp hg).1
  refine ne_nil_of_mem (a := s) (mem_filter.mpr ⟨mem_range.mpr hl, ?_⟩)
  simpa [hg] using hs

/-- What the calls keep: the stable values, in both buffers, and the stable predicates. -/
structure Keeps (layout : List RuntimeValueSpec) (planned : List (PlannedFilterRecord P))
    (start b : RelationFilterBinding B V) : Prop where
  values : ∀ slot ∉ dynamicSlots layout, b.values.values slot = start.values.values slot
  pending : ∀ slot ∉ dynamicSlots layout, b.values.pending slot = start.values.values slot
  stable : ∀ index filter, planned[index]? = some filter → isStable layout filter = true →
    b.bound index = start.bound index

/-- What a call that finds the predicates of `b` leaves. -/
structure Rebound (bindFilter : P → List V → Except X (Option B)) (layout : List RuntimeValueSpec)
    (planned : List (PlannedFilterRecord P)) (evaluate : ℕ → Option V)
    (b : RelationFilterBinding B V)
    (after : Except (RelationFilterBindingError X) Unit × RelationFilterBinding B V) : Prop where
  failed : ∀ error, after.1 = .error error → after.2.bound = b.bound
  evaluated : after.1 = .ok () → ∀ slot ∈ dynamicSlots layout,
    evaluate slot = some (after.2.values.values slot)
  dynamic : after.1 = .ok () → ∀ index filter, planned[index]? = some filter →
    isStable layout filter = false →
      bindRecord bindFilter layout after.2.values.values index filter = .ok (after.2.bound index)

variable {s b : RelationFilterBinding B V}

lemma Keeps.rebindDynamic (h : Keeps l p s b) (e : ℕ → Option V) :
    Keeps l p s (b.rebindDynamic bf l p e).2 ∧ Rebound bf l p e b (b.rebindDynamic bf l p e) := by
  unfold RelationFilterBinding.rebindDynamic RuntimeValueState.rebindDynamic
  split_ifs with hd
  · refine ⟨h, nofun, fun _ => ?_, fun _ i f _ hf => ?_⟩
    · simp [hd]
    · exact absurd hd (dynamicSlots_ne_nil hf)
  · obtain ⟨hu, hv⟩ := evaluateSlots_spec e (dynamicSlots l) b.values.pending
    have hp : ∀ slot ∉ dynamicSlots l, (evaluateSlots e (dynamicSlots l) b.values.pending).2 slot =
          s.values.values slot := fun slot hn => (hu slot hn).trans (h.pending slot hn)
    generalize evaluateSlots e (dynamicSlots l) b.values.pending = answer at hv hp
    obtain ⟨_ | _, pending⟩ := answer
    · exact ⟨⟨h.values, hp, h.stable⟩, fun _ _ => rfl, nofun, nofun⟩
    · dsimp only
      cases hb : bindDynamicRecords bf l pending 0 p with
      | error error => exact ⟨⟨hp, h.values, h.stable⟩, fun _ _ => rfl, nofun, nofun⟩
      | ok rs =>
        obtain ⟨-, hr⟩ := bindDynamicRecords_spec hb b.bound
        simp only [Nat.zero_add] at hr
        refine ⟨⟨hp, h.values, fun i f hf hs => ?_⟩, nofun, fun _ => hv rfl, fun _ i f hf hs => ?_⟩
        · have hi := hr i f hf
          rw [if_pos hs] at hi
          exact hi.trans (h.stable i f hf hs)
        · have hi := hr i f hf
          rwa [if_neg (by simp [hs])] at hi

/-- Any calls, each with the values PostgreSQL computes in it. -/
def run (bindFilter : P → List V → Except X (Option B)) (layout : List RuntimeValueSpec)
    (planned : List (PlannedFilterRecord P)) (start : RelationFilterBinding B V)
    (calls : List (ℕ → Option V)) : RelationFilterBinding B V :=
  calls.foldl (fun b evaluate => (b.rebindDynamic bindFilter layout planned evaluate).2) start

lemma Keeps.run (cs : List (ℕ → Option V)) (h : Keeps l p s b) : Keeps l p s (run bf l p b cs) := by
  induction cs generalizing b with
  | nil => exact h
  | cons e r ih => exact ih (h.rebindDynamic e).1

/-- A scan starts with equal buffers. After any calls, the next one replaces the predicates
of all dynamic filters or none. -/
theorem rebindDynamic_atomic (bindFilter : P → List V → Except X (Option B))
    (layout : List RuntimeValueSpec) (planned : List (PlannedFilterRecord P)) (initial : ℕ → V)
    (bound : ℕ → Option (BoundFilter B)) (calls : List (ℕ → Option V)) (evaluate : ℕ → Option V) :
    Rebound bindFilter layout planned evaluate
        (run bindFilter layout planned ⟨⟨initial, initial⟩, bound⟩ calls)
        ((run bindFilter layout planned ⟨⟨initial, initial⟩, bound⟩ calls).rebindDynamic
          bindFilter layout planned evaluate) ∧ Keeps layout planned ⟨⟨initial, initial⟩, bound⟩
        ((run bindFilter layout planned ⟨⟨initial, initial⟩, bound⟩ calls).rebindDynamic
          bindFilter layout planned evaluate).2 := by
  have hk : Keeps layout planned ⟨⟨initial, initial⟩, bound⟩
      (run bindFilter layout planned ⟨⟨initial, initial⟩, bound⟩ calls) :=
    .run calls ⟨fun _ _ => rfl, fun _ _ => rfl, fun _ _ _ _ => rfl⟩
  exact (hk.rebindDynamic evaluate).symm

end LagoDB.FilterRebinding
