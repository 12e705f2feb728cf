import Mathlib.Tactic.Ring

/-!
# Savepoints over a leveled undo history

A component that lives inside one transaction sees four kinds of event: an
action at the current nesting level, the start of a subtransaction, its release
and its abort. The reference machine keeps one full copy of the visible state
per open subtransaction. A leveled component keeps no copies: it undoes and
promotes its own records by level. The laws below are what such a component has
to satisfy at one event; `Matches.run` carries them over every run.
-/
namespace LagoDB.Savepoint

open List

/-- Level one is the top-level transaction, which is never undone by level. -/
inductive Event (ο : Type*) where
  | act (op : ο)
  | start
  | release
  | abort

/-- The copies are those of the open subtransactions, innermost first. -/
structure Reference (ν : Type*) where
  current : ν
  copies : List ν

namespace Reference

variable {ν ο : Type*}

/-- RELEASE and ABORT outside every subtransaction leave the machine alone. -/
def step (apply : ο → ν → ν) (r : Reference ν) : Event ο → Reference ν
  | .act op => ⟨apply op r.current, r.copies⟩
  | .start => ⟨r.current, r.current :: r.copies⟩
  | .release => ⟨r.current, r.copies.tail⟩
  | .abort =>
    match r.copies with
    | [] => r
    | copy :: rest => ⟨copy, rest⟩

def run (apply : ο → ν → ν) (r : Reference ν) (events : List (Event ο)) : Reference ν :=
  events.foldl (step apply) r

/-- A machine entered below `depth` open subtransactions that saw nothing. -/
def entered (view : ν) (depth : ℕ) : Reference ν := ⟨view, List.replicate depth view⟩

/-- What holds of the current state and of everything an abort can restore. -/
structure All (P : ν → Prop) (r : Reference ν) : Prop where
  current : P r.current
  copies : ∀ copy ∈ r.copies, P copy

lemma All.entered {P : ν → Prop} {v : ν} (h : P v) (d : ℕ) : All P (entered v d) :=
  ⟨h, fun _ hc => eq_of_mem_replicate hc ▸ h⟩

lemma All.step {P : ν → Prop} {a : ο → ν → ν} {r : Reference ν} (h : All P r)
    (e : Event ο) (ha : ∀ op, e = .act op → P (a op r.current)) : All P (r.step a e) := by
  cases e with
  | act op => exact ⟨ha op rfl, h.copies⟩
  | start => exact ⟨h.current, forall_mem_cons.mpr ⟨h.current, h.copies⟩⟩
  | release => exact ⟨h.current, fun copy hc => h.copies copy (mem_of_mem_tail hc)⟩
  | abort =>
    obtain ⟨current, c⟩ := r
    cases c with
    | nil => exact h
    | cons copy rest =>
      obtain ⟨hc, hr⟩ := forall_mem_cons.mp h.copies
      exact ⟨hc, hr⟩

end Reference

/-- A component with leveled records. `inv level s` bounds every level recorded
in `s` by `level`; `undo` and `promote` are the abort and release callbacks. -/
structure Component (σ ν ο : Type*) where
  view : σ → ν
  apply : ο → ν → ν
  act : ℕ → ο → σ → σ
  undo : ℕ → σ → σ
  promote : ℕ → σ → σ
  inv : ℕ → σ → Prop
  act_view : ∀ level op s, inv level s → view (act level op s) = apply op (view s)
  act_inv : ∀ level op s, 1 ≤ level → inv level s → inv level (act level op s)
  undo_act : ∀ level op s target, inv level s → 2 ≤ target → target ≤ level →
    view (undo target (act level op s)) = view (undo target s)
  undo_above : ∀ level s target, inv level s → level < target →
    view (undo target s) = view s
  start_inv : ∀ level s, inv level s → inv (level + 1) s
  undo_inv : ∀ level s, inv (level + 1) s → inv level (undo (level + 1) s)
  undo_undo : ∀ s target level, target ≤ level →
    view (undo target (undo level s)) = view (undo target s)
  promote_view : ∀ level s, view (promote level s) = view s
  promote_inv : ∀ level s, 1 ≤ level → inv (level + 1) s → inv level (promote (level + 1) s)
  undo_promote : ∀ level s target, inv level s → 2 ≤ target → target < level →
    view (undo target (promote level s)) = view (undo target s)

/-- A component state together with the current nesting level. -/
structure Session (σ : Type*) where
  level : ℕ
  state : σ

namespace Component

variable {σ ν ο : Type*} (c : Component σ ν ο)

def step (s : Session σ) : Event ο → Session σ
  | .act op => ⟨s.level, c.act s.level op s.state⟩
  | .start => ⟨s.level + 1, s.state⟩
  | .release =>
    if 2 ≤ s.level then ⟨s.level - 1, c.promote s.level s.state⟩ else s
  | .abort =>
    if 2 ≤ s.level then ⟨s.level - 1, c.undo s.level s.state⟩ else s

def run (s : Session σ) (events : List (Event ο)) : Session σ := events.foldl c.step s

/-- Undoing to the level of a copy shows that copy; the head of the list
belongs to the innermost subtransaction. -/
def Restores (s : σ) : List ν → Prop
  | [] => True
  | copy :: rest => c.view (c.undo (rest.length + 2) s) = copy ∧ Restores s rest

variable {c}

lemma Restores.congr {s t : σ} {cs : List ν} (h : ∀ g, 2 ≤ g → g ≤ cs.length + 1 →
      c.view (c.undo g t) = c.view (c.undo g s)) (hr : c.Restores s cs) : c.Restores t cs := by
  induction cs with
  | nil => trivial
  | cons copy r ih =>
    obtain ⟨hh, ht⟩ := hr
    refine ⟨?_, ih (fun g hl hhi => h g hl ?_) ht⟩
    · rw [h (r.length + 2) (by omega) (by simp), hh]
    · simp only [length_cons]
      omega

/-- The simulation relation: the levels agree, the visible states agree, and
every open subtransaction can still be undone to its copy. -/
structure Matches (c : Component σ ν ο) (s : Session σ) (r : Reference ν) : Prop where
  level : s.level = r.copies.length + 1
  inv : c.inv s.level s.state
  current : c.view s.state = r.current
  restores : c.Restores s.state r.copies

variable {s : Session σ} {r : Reference ν}

section

variable (h : Matches c s r)

include h

lemma Matches.act (op : ο) : Matches c (c.step s (.act op)) (r.step c.apply (.act op)) where
  level := h.level
  inv := c.act_inv s.level op s.state (by have := h.level; omega) h.inv
  current := by
    change c.view (c.act s.level op s.state) = c.apply op r.current
    rw [c.act_view s.level op s.state h.inv, h.current]
  restores := by
    refine Restores.congr (fun t hl hh => ?_) h.restores
    exact c.undo_act s.level op s.state t h.inv hl (by rw [h.level]; exact hh)

lemma Matches.start : Matches c (c.step s .start) (r.step c.apply .start) where
  level := by
    change s.level + 1 = r.copies.length + 1 + 1
    rw [h.level]
  inv := c.start_inv s.level s.state h.inv
  current := h.current
  restores := by
    refine ⟨?_, h.restores⟩
    change c.view (c.undo (r.copies.length + 2) s.state) = r.current
    rw [c.undo_above s.level s.state _ h.inv (by rw [h.level]; omega), h.current]

lemma Matches.release : Matches c (c.step s .release) (r.step c.apply .release) := by
  obtain ⟨l, st⟩ := s
  obtain ⟨u, o⟩ := r
  cases o with
  | nil =>
    obtain rfl : l = 1 := h.level
    simpa [Component.step, Reference.step] using h
  | cons copy rest =>
    obtain rfl : l = rest.length + 2 := h.level
    refine ⟨rfl, c.promote_inv (rest.length + 1) st (by omega) h.inv, ?_, ?_⟩
    · exact (c.promote_view _ _).trans h.current
    · refine Restores.congr (fun t hl hh => ?_) h.restores.2
      exact c.undo_promote _ st t h.inv hl (Nat.lt_succ_of_le hh)

lemma Matches.abort : Matches c (c.step s .abort) (r.step c.apply .abort) := by
  obtain ⟨l, st⟩ := s
  obtain ⟨u, o⟩ := r
  cases o with
  | nil =>
    obtain rfl : l = 1 := h.level
    simpa [Component.step, Reference.step] using h
  | cons copy rest =>
    obtain rfl : l = rest.length + 2 := h.level
    refine ⟨rfl, c.undo_inv (rest.length + 1) st h.inv, h.restores.1, ?_⟩
    refine Restores.congr (fun t hl hh => ?_) h.restores.2
    exact c.undo_undo st t _ (Nat.le_succ_of_le hh)

lemma Matches.step (e : Event ο) : Matches c (c.step s e) (r.step c.apply e) := by
  cases e with
  | act op => exact h.act op
  | start => exact h.start
  | release => exact h.release
  | abort => exact h.abort

lemma Matches.run (es : List (Event ο)) : Matches c (c.run s es) (r.run c.apply es) := by
  induction es generalizing s r with
  | nil => exact h
  | cons e rest ih => exact ih (h.step e)

end

lemma restores_replicate (s : σ) (hu : ∀ t, c.view (c.undo t s) = c.view s)
    (d : ℕ) : c.Restores s (List.replicate d (c.view s)) := by
  induction d with
  | zero => trivial
  | succ d ih => exact ⟨hu _, ih⟩

/-- A state that no level can undo matches the machine that copied it on entry
to every enclosing subtransaction. -/
lemma Matches.entered (s : σ) (d : ℕ) (hi : c.inv (d + 1) s)
    (hu : ∀ t, c.view (c.undo t s) = c.view s) :
    Matches c ⟨d + 1, s⟩ (Reference.entered (c.view s) d) where
  level := by simp [Reference.entered]
  inv := hi
  current := rfl
  restores := restores_replicate s hu d

/-- Two components that see the same subtransactions, each with actions of its own. -/
def prod {τ μ π : Type*} (c : Component σ ν ο) (d : Component τ μ π) :
    Component (σ × τ) (ν × μ) (ο ⊕ π) where
  view s := (c.view s.1, d.view s.2)
  apply op views :=
    match op with
    | .inl op => (c.apply op views.1, views.2)
    | .inr op => (views.1, d.apply op views.2)
  act level op s :=
    match op with
    | .inl op => (c.act level op s.1, s.2)
    | .inr op => (s.1, d.act level op s.2)
  undo target s := (c.undo target s.1, d.undo target s.2)
  promote level s := (c.promote level s.1, d.promote level s.2)
  inv level s := c.inv level s.1 ∧ d.inv level s.2
  act_view level op s hinv := by
    cases op with
    | inl op => simp only [c.act_view level op s.1 hinv.1]
    | inr op => simp only [d.act_view level op s.2 hinv.2]
  act_inv level op s hlevel hinv := by
    cases op with
    | inl op => exact ⟨c.act_inv level op s.1 hlevel hinv.1, hinv.2⟩
    | inr op => exact ⟨hinv.1, d.act_inv level op s.2 hlevel hinv.2⟩
  undo_act level op s target hinv hlow hhigh := by
    cases op with
    | inl op => simp only [c.undo_act level op s.1 target hinv.1 hlow hhigh]
    | inr op => simp only [d.undo_act level op s.2 target hinv.2 hlow hhigh]
  undo_above level s target hinv hlt := by
    rw [c.undo_above level s.1 target hinv.1 hlt, d.undo_above level s.2 target hinv.2 hlt]
  start_inv level s hinv := ⟨c.start_inv level s.1 hinv.1, d.start_inv level s.2 hinv.2⟩
  undo_inv level s hinv := ⟨c.undo_inv level s.1 hinv.1, d.undo_inv level s.2 hinv.2⟩
  undo_undo s target level hle := by
    rw [c.undo_undo s.1 target level hle, d.undo_undo s.2 target level hle]
  promote_view level s := by
    rw [c.promote_view level s.1, d.promote_view level s.2]
  promote_inv level s hlevel hinv :=
    ⟨c.promote_inv level s.1 hlevel hinv.1, d.promote_inv level s.2 hlevel hinv.2⟩
  undo_promote level s target hinv hlow hhigh := by
    rw [c.undo_promote level s.1 target hinv.1 hlow hhigh,
      d.undo_promote level s.2 target hinv.2 hlow hhigh]

end Component

/-! ## Level-sorted stacks

The records of a leveled component are stacks whose top is the head of the
list. Levels never increase towards the bottom, and a record of the top-level
transaction is never kept. -/

/-- The level a record carries after the release of `released`. -/
def promoteLevel (released level : ℕ) : ℕ :=
  if released ≤ level then released - 1 else level

lemma le_promoteLevel_iff {t rs l : ℕ} (h : t < rs) : t ≤ promoteLevel rs l ↔ t ≤ l := by
  unfold promoteLevel
  split_ifs <;> omega

lemma promoteLevel_le (rs l : ℕ) : promoteLevel rs l ≤ rs - 1 := by
  unfold promoteLevel
  split_ifs <;> omega

lemma promoteLevel_mono {rs a b : ℕ} (h : a ≤ b) : promoteLevel rs a ≤ promoteLevel rs b := by
  unfold promoteLevel
  split_ifs <;> omega

/-- Every level of the stack lies in `2..high` and none exceeds a newer one. -/
structure Leveled {φ : Type*} (level : φ → ℕ) (high : ℕ) (frames : List φ) : Prop where
  sorted : frames.Pairwise (fun newer older => level older ≤ level newer)
  bounds : ∀ f ∈ frames, 2 ≤ level f ∧ level f ≤ high

namespace Leveled

variable {φ : Type*} {l : φ → ℕ} {high : ℕ} {fs : List φ}

lemma nil : Leveled l high [] := ⟨List.Pairwise.nil, by simp⟩

lemma mono {high' : ℕ} (h : Leveled l high fs) (hle : high ≤ high') : Leveled l high' fs :=
  ⟨h.sorted, fun f hf => ⟨(h.bounds f hf).1, (h.bounds f hf).2.trans hle⟩⟩

variable {f : φ}

lemma tail (h : Leveled l high (f :: fs)) : Leveled l high fs :=
  ⟨h.sorted.of_cons, fun g hg => h.bounds g (mem_cons_of_mem f hg)⟩

lemma tail_le (h : Leveled l high (f :: fs)) : Leveled l (l f) fs := ⟨h.sorted.of_cons, fun g hg =>
    ⟨(h.bounds g (mem_cons_of_mem f hg)).1, rel_of_pairwise_cons h.sorted hg⟩⟩

lemma push (h : Leveled l high fs) (hl : 2 ≤ l f) (hf : l f = high) : Leveled l high (f :: fs) := by
  refine ⟨pairwise_cons.mpr ⟨fun g hg => ?_, h.sorted⟩, ?_⟩
  · rw [hf]
    exact (h.bounds g hg).2
  · intro g hg
    rcases mem_cons.mp hg with rfl | hg
    · exact ⟨hl, hf.le⟩
    · exact h.bounds g hg

lemma dropWhile (h : Leveled l (high + 1) fs) :
    Leveled l high (fs.dropWhile (fun f => decide (high + 1 ≤ l f))) := by
  induction fs with
  | nil => exact nil
  | cons f fs ih =>
    rw [dropWhile_cons]
    split_ifs with hp
    · exact ih h.tail
    · have hf : l f ≤ high := by simpa [Nat.lt_succ_iff] using hp
      refine ⟨h.sorted, fun g hg => ⟨(h.bounds g hg).1, ?_⟩⟩
      rcases mem_cons.mp hg with rfl | hg
      · exact hf
      · exact (h.tail_le.bounds g hg).2.trans hf

lemma sublist {k : List φ} (h : Leveled l high fs) (hk : k.Sublist fs) : Leveled l high k :=
  ⟨h.sorted.sublist hk, fun f hf => h.bounds f (hk.subset hf)⟩

lemma promote {m : φ → φ} (h : Leveled l (high + 1) fs)
    (hm : ∀ f, l (m f) = promoteLevel (high + 1) (l f)) :
    Leveled l high ((fs.map m).filter (fun f => decide (1 < l f))) := by
  refine ⟨List.Pairwise.filter _ (pairwise_map.mpr (h.sorted.imp fun hle => ?_)), ?_⟩
  · rw [hm, hm]
    exact promoteLevel_mono hle
  · intro f hf
    obtain ⟨hme, hk⟩ := mem_filter.mp hf
    obtain ⟨g, -, rfl⟩ := mem_map.mp hme
    have hle := promoteLevel_le (high + 1) (l g)
    rw [← hm] at hle
    exact ⟨of_decide_eq_true hk, by simpa using hle⟩

lemma filter_promote {rs : ℕ} {m : φ → φ} (h : Leveled l high fs)
    (hr : 2 < rs) (hm : ∀ f, l (m f) = promoteLevel rs (l f)) :
    (fs.map m).filter (fun f => decide (1 < l f)) = fs.map m := by
  rw [filter_eq_self]
  intro f hf
  obtain ⟨g, hg, rfl⟩ := mem_map.mp hf
  have hl : 2 ≤ promoteLevel rs (l g) := (le_promoteLevel_iff hr).mpr (h.bounds g hg).1
  rw [← hm] at hl
  exact decide_eq_true hl

end Leveled

end LagoDB.Savepoint
