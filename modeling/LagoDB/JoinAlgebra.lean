import Mathlib.Data.Multiset.Bind

/-!
# Joins of multisets

Rows come with multiplicities and a row of the result names the rows it was made
of: both, or one of them and nothing where an outer join found no match. Semi- and
antijoins only tell rows of the left input apart.
-/
namespace LagoDB.JoinAlgebra

open Multiset

universe u v w x

variable {α : Type u} {β : Type v} {γ : Type w} {δ : Type x}

inductive JoinKind where
  | inner
  | left
  | right
  | full
  | leftSemi
  | leftAnti
  deriving DecidableEq

/-! ## Matches -/

def hasMatch (on : α → β → Bool) (right : Multiset β) (l : α) : Bool :=
  decide (0 < right.countP fun r => on l r = true)

def matchedPairs (on : α → β → Bool) (left : Multiset α) (right : Multiset β) :
    Multiset (Option α × Option β) :=
  left.bind fun l => (right.filter fun r => on l r = true).map fun r => (some l, some r)

def keepLeft (keep : α → Bool) (left : Multiset α) : Multiset (Option α × Option β) :=
  (left.filter fun l => keep l = true).map fun l => (some l, none)

def keepRight (keep : β → Bool) (right : Multiset β) : Multiset (Option α × Option β) :=
  (right.filter fun r => keep r = true).map fun r => (none, some r)

variable (kind : JoinKind)

def joinRows (on : α → β → Bool) (left : Multiset α) (right : Multiset β) :
    Multiset (Option α × Option β) :=
  match kind with
  | .inner => matchedPairs on left right
  | .left => matchedPairs on left right + keepLeft (fun l => !hasMatch on right l) left
  | .right => matchedPairs on left right + keepRight (fun r => !hasMatch (flip on) left r) right
  | .full => matchedPairs on left right + keepLeft (fun l => !hasMatch on right l) left +
      keepRight (fun r => !hasMatch (flip on) left r) right
  | .leftSemi => keepLeft (hasMatch on right) left
  | .leftAnti => keepLeft (fun l => !hasMatch on right l) left

variable {on : α → β → Bool} {right : Multiset β}

lemma hasMatch_eq_true {l : α} : hasMatch on right l = true ↔ ∃ r ∈ right, on l r = true := by
  rw [hasMatch, decide_eq_true_iff, countP_pos]

variable {on' : α → β → Bool}

lemma hasMatch_congr {l : α} (h : ∀ r ∈ right, on l r = on' l r) :
    hasMatch on right l = hasMatch on' right l := by
  rw [Bool.eq_iff_iff, hasMatch_eq_true, hasMatch_eq_true]
  exact exists_congr fun r => and_congr_right fun hr => by rw [h r hr]

lemma hasMatch_filter (on m : α → β → Bool) (right : Multiset β) (l : α) :
    hasMatch on (right.filter fun r => m l r = true) l =
      hasMatch (fun l r => m l r && on l r) right l := by
  rw [Bool.eq_iff_iff, hasMatch_eq_true, hasMatch_eq_true]
  simp only [mem_filter, Bool.and_eq_true, and_assoc]

lemma hasMatch_map (f : γ → α) (g : δ → β) (on : α → β → Bool) (right : Multiset δ) (l : γ) :
    hasMatch on (right.map g) (f l) = hasMatch (fun l r => on (f l) (g r)) right l := by
  rw [Bool.eq_iff_iff, hasMatch_eq_true, hasMatch_eq_true]
  simp

/-! ## Matching pairs of sums -/

lemma matchedPairs_add_left (on : α → β → Bool) (left d : Multiset α) (right : Multiset β) :
    matchedPairs on (left + d) right = matchedPairs on left right + matchedPairs on d right :=
  add_bind ..

lemma matchedPairs_add_right (on : α → β → Bool) (left : Multiset α) (right d : Multiset β) :
    matchedPairs on left (right + d) = matchedPairs on left right + matchedPairs on left d := by
  simp only [matchedPairs, filter_add, map_add, bind_add]

variable {left : Multiset α}

lemma matchedPairs_eq_zero_iff :
    matchedPairs on left right = 0 ↔ ∀ l ∈ left, ∀ r ∈ right, on l r = false := by
  simp only [matchedPairs, eq_zero_iff_forall_notMem, mem_bind,
    mem_map, mem_filter, Prod.forall, ← Bool.not_eq_true]
  constructor
  · exact fun hn l hl r hr ho => hn (some l) (some r) ⟨l, hl, r, ⟨hr, ho⟩, rfl⟩
  · rintro hn a b ⟨l, hl, r, ⟨hr, ho⟩, -⟩
    exact hn l hl r hr ho

/-! ## Conditions that agree -/

lemma matchedPairs_congr (h : ∀ l ∈ left, ∀ r ∈ right, on l r = on' l r) :
    matchedPairs on left right = matchedPairs on' left right := by
  refine bind_congr fun l hl => ?_
  have hf : (right.filter fun r => on l r = true) = right.filter fun r => on' l r = true :=
    filter_congr fun r hr => by rw [h l hl r hr]
  rw [hf]

lemma keepLeft_congr {k keep' : α → Bool} (h : ∀ l ∈ left, k l = keep' l) :
    (keepLeft k left : Multiset (Option α × Option β)) = keepLeft keep' left := by
  have hf : (left.filter fun l => k l = true) = left.filter fun l => keep' l = true :=
    filter_congr fun l hl => by rw [h l hl]
  rw [keepLeft, keepLeft, hf]

lemma keepRight_congr {k keep' : β → Bool} (h : ∀ r ∈ right, k r = keep' r) :
    (keepRight k right : Multiset (Option α × Option β)) = keepRight keep' right := by
  have hf : (right.filter fun r => k r = true) = right.filter fun r => keep' r = true :=
    filter_congr fun r hr => by rw [h r hr]
  rw [keepRight, keepRight, hf]

lemma joinRows_congr (h : ∀ l ∈ left, ∀ r ∈ right, on l r = on' l r) :
    joinRows kind on left right = joinRows kind on' left right := by
  have hp := matchedPairs_congr h
  have hlef (l : α) (hl : l ∈ left) : hasMatch on right l = hasMatch on' right l :=
    hasMatch_congr fun r hr => h l hl r hr
  have hri (r : β) (hr : r ∈ right) : hasMatch (flip on) left r = hasMatch (flip on') left r :=
    hasMatch_congr fun l hl => h l hl r hr
  have hu : (keepLeft (fun l => !hasMatch on right l) left :
      Multiset (Option α × Option β)) = keepLeft (fun l => !hasMatch on' right l) left :=
    keepLeft_congr fun l hl => by rw [hlef l hl]
  have hur : (keepRight (fun r => !hasMatch (flip on) left r) right :
      Multiset (Option α × Option β)) = keepRight (fun r => !hasMatch (flip on') left r) right :=
    keepRight_congr fun r hr => by rw [hri r hr]
  cases kind with
  | inner => exact hp
  | left => simp only [joinRows, hp, hu]
  | right => simp only [joinRows, hp, hur]
  | full => simp only [joinRows, hp, hu, hur]
  | leftSemi => exact keepLeft_congr hlef
  | leftAnti => exact hu

/-! ## Translated rows -/

section Map

variable (f : γ → α) (g : δ → β)

def translate : Option γ × Option δ → Option α × Option β :=
  Prod.map (Option.map f) (Option.map g)

lemma matchedPairs_map (on : α → β → Bool) (left : Multiset γ) (right : Multiset δ) :
    matchedPairs on (left.map f) (right.map g) =
      (matchedPairs (fun l r => on (f l) (g r)) left right).map (translate f g) := by
  rw [matchedPairs, bind_map, matchedPairs, map_bind]
  refine bind_congr fun l _ => ?_
  rw [filter_map, map_map, map_map]
  rfl

lemma keepLeft_map (k : α → Bool) (left : Multiset γ) :
    (keepLeft k (left.map f) : Multiset (Option α × Option β)) =
      (keepLeft (fun l => k (f l)) left).map (translate f g) := by
  rw [keepLeft, keepLeft, filter_map, map_map, map_map]
  rfl

lemma keepRight_map (k : β → Bool) (right : Multiset δ) :
    (keepRight k (right.map g) : Multiset (Option α × Option β)) =
      (keepRight (fun r => k (g r)) right).map (translate f g) := by
  rw [keepRight, keepRight, filter_map, map_map, map_map]
  rfl

lemma joinRows_map (kind : JoinKind) (on : α → β → Bool) (left : Multiset γ) (right : Multiset δ) :
    joinRows kind on (left.map f) (right.map g) =
      (joinRows kind (fun l r => on (f l) (g r)) left right).map (translate f g) := by
  have hl : (fun l => hasMatch on (right.map g) (f l)) =
      hasMatch (fun l r => on (f l) (g r)) right := by
    ext l
    rw [hasMatch_map]
  have hr : (fun r => hasMatch (flip on) (left.map f) (g r)) =
      hasMatch (flip fun l r => on (f l) (g r)) left := by
    ext r
    rw [hasMatch_map]
    rfl
  have hu := keepLeft_map f g (fun l => !hasMatch on (right.map g) l) left
  have hur := keepRight_map f g (fun r => !hasMatch (flip on) (left.map f) r) right
  have hm := keepLeft_map f g (hasMatch on (right.map g)) left
  simp only [congrFun hl] at hu hm
  simp only [congrFun hr] at hur
  cases kind <;>
    simp only [joinRows, matchedPairs_map, hu, hur, hm, map_add]

end Map

/-! ## Conditions moved into the right input -/

/-- The joins that can be run by looking up the right rows of one left row at a
time. -/
def JoinKind.isNested : JoinKind → Bool
  | .inner | .left | .leftSemi | .leftAnti => true
  | .right | .full => false

/-- The right input is looked up anew for each left row. -/
def nestedRows (on : α → β → Bool) (left : Multiset α)
    (right : α → Multiset β) : Multiset (Option α × Option β) :=
  left.bind fun l => joinRows kind on {l} (right l)

lemma joinRows_eq_bind {kind : JoinKind} (hki : kind.isNested = true) (on : α → β → Bool)
    (left : Multiset α) (right : Multiset β) :
    joinRows kind on left right = left.bind fun l => joinRows kind on {l} right := by
  have hke (k : α → Bool) : (keepLeft k left : Multiset (Option α × Option β)) =
      left.bind fun l => keepLeft k {l} := by
    induction left using Multiset.induction with
    | empty => rfl
    | cons a left ih =>
      rw [cons_bind, ← ih]
      by_cases hk : k a = true
      · simp [keepLeft, hk, filter_singleton]
      · simp [keepLeft, hk, filter_singleton]
  have hp : matchedPairs on left right = left.bind fun l => matchedPairs on {l} right :=
    bind_congr fun l _ => by rw [matchedPairs, singleton_bind]
  cases kind with
  | inner => exact hp
  | left => simp only [joinRows, hp, hke, bind_add]
  | leftSemi | leftAnti => exact hke _
  | right | full => cases hki

lemma nestedRows_filter {kind : JoinKind} (hk : kind.isNested = true)
    (on moved : α → β → Bool) (left : Multiset α) (right : Multiset β) :
    nestedRows kind on left (fun l => right.filter fun r => moved l r = true) =
      joinRows kind (fun l r => moved l r && on l r) left right := by
  rw [joinRows_eq_bind hk]
  refine bind_congr fun l _ => ?_
  have hp : matchedPairs on {l} (right.filter fun r => moved l r = true) =
      matchedPairs (fun l r => moved l r && on l r) {l} right := by
    simp only [matchedPairs, singleton_bind, filter_filter, Bool.and_eq_true, and_comm]
  have hm := hasMatch_filter on moved right l
  have hke : (keepLeft (hasMatch on (right.filter fun r => moved l r = true)) {l} :
      Multiset (Option α × Option β)) =
        keepLeft (hasMatch (fun l r => moved l r && on l r) right) {l} :=
    keepLeft_congr fun a ha => by rw [mem_singleton.mp ha, hm]
  have hd : (keepLeft (fun a => !hasMatch on (right.filter fun r => moved l r = true) a) {l} :
      Multiset (Option α × Option β)) =
        keepLeft (fun a => !hasMatch (fun l r => moved l r && on l r) right a) {l} :=
    keepLeft_congr fun a ha => by rw [mem_singleton.mp ha, hm]
  cases kind with
  | inner => exact hp
  | left => simp only [joinRows, hp, hd]
  | leftSemi => exact hke
  | leftAnti => exact hd
  | right | full => cases hk

end LagoDB.JoinAlgebra
