import Mathlib.Data.List.Induction

/-!
# Writes at a position, and replaying them

The content of a file under writes at arbitrary offsets. A sequence of effects, each of
which either replaces the whole content or writes a chunk into an existing one, can be
applied a second time without a difference.
-/
namespace LagoDB.PositionedWrites

open List

variable {α : Type*} [Zero α]

/-- A positioned write; a gap before the offset is filled with zeros. -/
def writeAt (content : List α) (offset : ℕ) (data : List α) : List α :=
  if data.isEmpty then content
  else content.take offset ++ List.replicate (offset - content.length) 0 ++ data ++
    content.drop (offset + data.length)

def reach (offset : ℕ) (data : List α) : ℕ :=
  if data.isEmpty then 0 else offset + data.length

lemma length_writeAt (c : List α) (o : ℕ) (d : List α) :
    (writeAt c o d).length = max c.length (reach o d) := by
  by_cases h : d.isEmpty
  · simp [writeAt, reach, h]
  · simp only [writeAt, reach, h, Bool.false_eq_true, if_false, length_append,
      length_take, length_replicate, length_drop]
    omega

lemma getD_writeAt (c : List α) (o : ℕ) (d : List α) (i : ℕ) :
    (writeAt c o d).getD i 0 = if o ≤ i ∧ i < o + d.length then d.getD (i - o) 0
      else c.getD i 0 := by
  by_cases h : d.isEmpty
  · have hnil : d = [] := isEmpty_iff.mp h
    subst hnil
    rw [if_neg (by rw [length_nil]; omega)]
    simp [writeAt]
  · have hp : (c.take o ++ replicate (o - c.length) 0).length = o := by
      simp only [length_append, length_take, length_replicate]
      omega
    simp only [writeAt, h, Bool.false_eq_true, if_false, getD_eq_getElem?_getD]
    by_cases hb : i < o
    · rw [if_neg (by omega), append_assoc, getElem?_append_left (by omega), getElem?_append]
      by_cases ho : i < c.length
      · rw [if_pos (by rw [length_take]; omega), getElem?_take_of_lt hb]
      · have hz : (replicate (o - c.length) (0 : α))[ i - (c.take o).length]? = some 0 := by
          rw [getElem?_replicate, if_pos (by rw [length_take]; omega)]
        rw [if_neg (by rw [length_take]; omega), hz, getElem?_eq_none (Nat.le_of_not_lt ho)]
        rfl
    · rw [append_assoc, getElem?_append_right (by omega), hp, getElem?_append]
      by_cases hi : i - o < d.length
      · rw [if_pos hi, if_pos (by omega)]
      · rw [if_neg hi, if_neg (by omega), getElem?_drop]
        congr 2
        omega

lemma writeAt_length (c d : List α) : writeAt c c.length d = c ++ d := by
  by_cases h : d.isEmpty
  · have hnil : d = [] := isEmpty_iff.mp h
    simp [writeAt, hnil]
  · simp [writeAt, h]

lemma ext_getD {f s : List α} (hl : f.length = s.length)
    (hg : ∀ i, f.getD i 0 = s.getD i 0) : f = s := by
  apply ext_getElem hl
  intro i hf hs
  have hi := hg i
  simpa [getD_eq_getElem?_getD, hf, hs] using hi

/-! ## Sequences of effects -/

/-- What one operation does to the content of a file; no content is no file. -/
inductive Effect (α : Type*)
  | assign (content : Option (List α))
  | overwrite (offset : ℕ) (data : List α)

def Effect.apply : Effect α → Option (List α) → Option (List α)
  | .assign content, _ => content
  | .overwrite offset data, content => content.map (writeAt · offset data)

variable (effects : List (Effect α))

def applyAll (content : Option (List α)) : Option (List α) :=
  effects.foldl (fun content effect => effect.apply content) content

lemma applyAll_append (f s : List (Effect α)) (c : Option (List α)) :
    applyAll (f ++ s) c = applyAll s (applyAll f c) := by
  simp [applyAll]

variable {es : List (Effect α)}

lemma applyAll_of_assign {c : Option (List α)} (h : .assign c ∈ es) (f s : Option (List α)) :
    applyAll es f = applyAll es s := by
  obtain ⟨b, a, rfl⟩ := append_of_mem h
  simp [applyAll, Effect.apply]

/-- What a sequence of overwrites leaves at a position, if it writes there. -/
def written (i : ℕ) : Option α :=
  effects.foldl (fun value effect =>
    match effect with
    | .assign _ => value
    | .overwrite offset data =>
      if offset ≤ i ∧ i < offset + data.length then some (data.getD (i - offset) 0)
      else value) none

/-- How far a sequence of overwrites reaches. -/
def extent : ℕ :=
  effects.foldl (fun length effect =>
    match effect with
    | .assign _ => length
    | .overwrite offset data => max length (reach offset data)) 0

/-- Overwrites alone: the last one at a position decides it, the furthest one the length. -/
lemma applyAll_overwrites (c : List α) (h : ∀ a, .assign a ∉ es) :
    ∃ r, applyAll es (some c) = some r ∧ r.length = max c.length (extent es) ∧
      ∀ i, r.getD i 0 = (written es i).getD (c.getD i 0) := by
  induction es using reverseRecOn with
  | nil => exact ⟨c, rfl, by simp [extent], fun i => rfl⟩
  | append_singleton es e ih =>
    obtain ⟨r, ha, hl, hg⟩ := ih fun a hm => h a (mem_append_left _ hm)
    cases e with
    | assign a => exact absurd (by simp) (h a)
    | overwrite o d =>
      refine ⟨writeAt r o d, ?_, ?_, ?_⟩
      · rw [applyAll_append, ha]
        rfl
      · simp only [length_writeAt, hl, extent, foldl_append, foldl_cons, foldl_nil]
        omega
      · intro i
        simp only [getD_writeAt, hg i, written, foldl_append, foldl_cons, foldl_nil]
        split <;> rfl

lemma applyAll_none (h : ∀ a, .assign a ∉ es) : applyAll es none = none := by
  induction es with
  | nil => rfl
  | cons e r ih =>
    cases e with
    | assign a => exact absurd (by simp) (h a)
    | overwrite o d => exact ih fun a hm => h a (mem_cons_of_mem _ hm)

/-- Applying a sequence again changes nothing. -/
lemma applyAll_idempotent (es : List (Effect α)) (c : Option (List α)) :
    applyAll es (applyAll es c) = applyAll es c := by
  by_cases h : ∃ a, Effect.assign a ∈ es
  · obtain ⟨a, hm⟩ := h
    exact applyAll_of_assign hm _ _
  · have hn : ∀ a, Effect.assign a ∉ es := fun a hm => h ⟨a, hm⟩
    cases c with
    | none => rw [applyAll_none hn, applyAll_none hn]
    | some c =>
      obtain ⟨o, ho, hl, hg⟩ := applyAll_overwrites c hn
      obtain ⟨t, ht, hl', hg'⟩ := applyAll_overwrites o hn
      rw [ho, ht]
      congr 1
      apply ext_getD
      · omega
      · intro i
        rw [hg', hg]
        cases written es i <;> rfl

end LagoDB.PositionedWrites
