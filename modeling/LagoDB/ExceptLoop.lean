import Mathlib.Data.List.Basic

/-!
# Loops that may fail

A loop over a list that stops at the first error is `List.foldlM` in `Except`.
The rules below say when such a loop succeeds and what it has established by
then, from what one iteration does. `R` relates the states before and after: it
is what every iteration leaves in place.
-/
namespace LagoDB.ExceptLoop

open List

universe u

variable {ε σ α : Type u} {f : σ → α → Except ε σ} {I : σ → Prop} {R : σ → σ → Prop}
  {P : α → σ → Prop} {β γ : Type u} {x : Except ε β} {g : β → Except ε γ}

lemma bind_ok {b : β} (h : x = .ok b) : (x >>= g) = g b := by
  rw [h]
  rfl

lemma bind_eq_ok {c : γ} (h : (x >>= g) = .ok c) : ∃ b, x = .ok b ∧ g b = .ok c := by
  cases x with
  | error error => cases h
  | ok b => exact ⟨b, rfl, h⟩

lemma map_eq_ok {g : β → γ} {c : γ} (h : x.map g = .ok c) : ∃ b, x = .ok b ∧ g b = c := by
  cases x with
  | error error => cases h
  | ok b => exact ⟨b, rfl, Except.ok.inj h⟩

/-- Every iteration succeeds, keeps the invariant and establishes its own
postcondition, which later iterations do not undo. -/
lemma foldlM_establishes (hr : ∀ s, R s s) (ht : ∀ a b c, R a b → R b c → R a c)
    (hst : ∀ a s s', P a s → R s s' → P a s') (ts : List α)
    (hste : ∀ a ∈ ts, ∀ s, I s → ∃ s', f s a = .ok s' ∧ I s' ∧ R s s' ∧ P a s') (s : σ) (hs : I s) :
    ∃ s', ts.foldlM f s = .ok s' ∧ I s' ∧ R s s' ∧ ∀ a ∈ ts, P a s' := by
  induction ts generalizing s with
  | nil => exact ⟨s, rfl, hs, hr s, by simp⟩
  | cons a r ih =>
    obtain ⟨s₁, hf, hs₁, hr₁, hp⟩ := hste a mem_cons_self s hs
    obtain ⟨s₂, hre, hs₂, hr₂, ha⟩ := ih (fun b hb => hste b (mem_cons_of_mem a hb)) s₁ hs₁
    refine ⟨s₂, ?_, hs₂, ht s s₁ s₂ hr₁ hr₂, ?_⟩
    · rw [foldlM_cons, bind_ok hf, hre]
    · intro b hb
      rcases mem_cons.mp hb with rfl | hb
      · exact hst b s₁ s₂ hp hr₂
      · exact ha b hb

/-- A loop of checks succeeds when every check does and otherwise reports the
error of one of them. -/
lemma forM_cases {ε α : Type*} (c : α → Except ε Unit) (ts : List α) :
    ts.forM c = .ok () ∧ (∀ a ∈ ts, c a = .ok ()) ∨
      ∃ a ∈ ts, ∃ error, c a = .error error ∧ ts.forM c = .error error := by
  induction ts with
  | nil => exact .inl ⟨rfl, by simp⟩
  | cons a rest ih =>
    have hco : (a :: rest).forM c = (c a >>= fun _ => rest.forM c) := rfl
    rw [hco]
    cases hc : c a with
    | error error => exact .inr ⟨a, mem_cons_self, error, hc, rfl⟩
    | ok v =>
      rcases ih with ⟨hr, ha⟩ | ⟨b, hb, error, hb_check, hr⟩
      · refine .inl ⟨hr, fun b hb => ?_⟩
        rcases mem_cons.mp hb with rfl | hb
        · exact hc
        · exact ha b hb
      · exact .inr ⟨b, mem_cons_of_mem a hb, error, hb_check, hr⟩

variable {f : β → Except ε γ} {rs : List γ}

section

variable {ts : List β} (h : ts.mapM f = .ok rs)

include h

lemma mapM_eq_ok (c : γ) : c ∈ rs ↔ ∃ b ∈ ts, f b = .ok c := by
  induction ts generalizing rs with
  | nil =>
    cases h
    simp
  | cons b r ih =>
    rw [mapM_cons] at h
    obtain ⟨i, hf, h⟩ := bind_eq_ok h
    obtain ⟨o, ho, h⟩ := bind_eq_ok h
    cases h
    have hs : c = i ↔ f b = .ok c := by rw [hf, Except.ok.injEq, eq_comm]
    simp only [mem_cons, exists_eq_or_imp, ih ho, hs]

lemma mapM_forall₂ : List.Forall₂ (fun b c => f b = .ok c) ts rs := by
  induction ts generalizing rs with
  | nil =>
    cases h
    exact .nil
  | cons a r ih =>
    rw [mapM_cons] at h
    obtain ⟨c, hc, ht⟩ := bind_eq_ok h
    obtain ⟨o, ho, hs⟩ := bind_eq_ok ht
    cases hs
    exact .cons hc (ih ho)

lemma mapM_ok_of_mem {b : β} (hb : b ∈ ts) : ∃ c, f b = .ok c := by
  induction ts generalizing rs with
  | nil => cases hb
  | cons a r ih =>
    rw [mapM_cons] at h
    obtain ⟨i, hf, h⟩ := bind_eq_ok h
    obtain ⟨o, ho, -⟩ := bind_eq_ok h
    rcases mem_cons.mp hb with rfl | hb
    · exact ⟨i, hf⟩
    · exact ih ho hb

end

variable {I : List γ → β → Prop} {ts : List γ}

/-- A loop that succeeded: the invariant speaks of the items done so far. -/
lemma foldlM_eq_ok {f : β → γ → Except ε β}
    (hs : ∀ a ∈ ts, ∀ d b b', I d b → f b a = .ok b' → I (d ++ [a]) b')
    (d : List γ) {b r : β} (hb : I d b) (h : ts.foldlM f b = .ok r) : I (d ++ ts) r := by
  induction ts generalizing d b with
  | nil =>
    cases h
    simpa using hb
  | cons a rest ih =>
    obtain ⟨b', hb', hr⟩ := bind_eq_ok h
    have hn := hs a mem_cons_self d b b' hb hb'
    have hd := ih (fun c hc => hs c (mem_cons_of_mem a hc)) (d ++ [a]) hn hr
    simpa using hd

/-- A loop in `Option`: the invariant speaks of the items done so far. -/
lemma foldlM_eq_some {f : β → γ → Option β}
    (hs : ∀ a ∈ ts, ∀ d b b', I d b → f b a = some b' → I (d ++ [a]) b')
    (d : List γ) {b r : β} (hb : I d b) (h : ts.foldlM f b = some r) : I (d ++ ts) r := by
  induction ts generalizing d b with
  | nil =>
    cases h
    simpa using hb
  | cons a rest ih =>
    obtain ⟨b', hb', hr⟩ := Option.bind_eq_some_iff.mp h
    have hn := hs a mem_cons_self d b b' hb hb'
    have hd := ih (fun c hc => hs c (mem_cons_of_mem a hc)) (d ++ [a]) hn hr
    simpa using hd

/-! ## Results whatever the state -/

section Yields

variable {ε σ α β : Type u} {Q : α → Prop} {R : β → Prop}

/-- Every result satisfies the postcondition, whatever state the computation
starts in. -/
def Yields (x : StateT σ (Except ε) α) (Q : α → Prop) : Prop :=
  ∀ s a s', x s = .ok (a, s') → Q a

variable {x : StateT σ (Except ε) α}

lemma Yields.mono {Q' : α → Prop} (h : Yields x Q) (hi : ∀ a, Q a → Q' a) : Yields x Q' :=
  fun s a s' hx => hi a (h s a s' hx)

lemma Yields.pure {a : α} (h : Q a) : Yields (Pure.pure a : StateT σ (Except ε) α) Q := by
  rintro s _ s' ⟨⟩
  exact h

lemma Yields.bind {f : α → StateT σ (Except ε) β}
    (hx : Yields x Q) (hf : ∀ a, Q a → Yields (f a) R) : Yields (x >>= f) R := by
  intro s b s'' h
  obtain ⟨⟨a, s'⟩, hxa, hfa⟩ := bind_eq_ok h
  exact hf a (hx s a s' hxa) s' b s'' hfa

/-- The invariant speaks of the items done so far. -/
lemma Yields.foldlM {f : β → α → StateT σ (Except ε) β} {I : List α → β → Prop} {ts : List α}
    (hs : ∀ a ∈ ts, ∀ d b, I d b → Yields (f b a) (I (d ++ [a])))
    (d : List α) (b : β) (h : I d b) : Yields (ts.foldlM f b) (I (d ++ ts)) := by
  induction ts generalizing d b with
  | nil => simpa using Yields.pure h
  | cons a r ih =>
    refine Yields.bind (hs a mem_cons_self d b h) fun b' hb' => ?_
    have hr := ih (fun c hc => hs c (mem_cons_of_mem a hc)) (d ++ [a]) b' hb'
    simpa using hr

end Yields

end LagoDB.ExceptLoop
