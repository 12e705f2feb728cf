import Mathlib.Data.List.Basic

/-!
# SQL truth values

Three-valued logic over `Option Bool`, where `none` is NULL, and the two ways a
two-valued filter can stand for a three-valued condition: it selects exactly the
rows on which the condition is TRUE, or it covers them. NULL is why a filter and
its complement are separate matters: the rows outside an exact filter are those
on which the condition is FALSE or NULL.
-/
namespace LagoDB.SqlLogic

/-- A SQL boolean; `none` is NULL. -/
abbrev Truth := Option Bool

namespace Truth

def not (a : Truth) : Truth := a.map Bool.not

def and : Truth → Truth → Truth
  | some false, _ => some false
  | _, some false => some false
  | some true, some true => some true
  | _, _ => none

def or : Truth → Truth → Truth
  | some true, _ => some true
  | _, some true => some true
  | some false, some false => some false
  | _, _ => none

def all (values : List Truth) : Truth := values.foldr and (some true)

def any (values : List Truth) : Truth := values.foldr or (some false)

variable {a : Truth}

@[simp] lemma not_eq_true : not a = some true ↔ a = some false := by
  rcases a with _ | _ | _ <;> simp [not]

@[simp] lemma not_eq_false : not a = some false ↔ a = some true := by
  rcases a with _ | _ | _ <;> simp [not]

variable {b : Truth}

@[simp] lemma and_eq_true : and a b = some true ↔ a = some true ∧ b = some true := by
  rcases a with _ | _ | _ <;> rcases b with _ | _ | _ <;> simp [and]

@[simp] lemma and_eq_false : and a b = some false ↔ a = some false ∨ b = some false := by
  rcases a with _ | _ | _ <;> rcases b with _ | _ | _ <;> simp [and]

@[simp] lemma or_eq_true : or a b = some true ↔ a = some true ∨ b = some true := by
  rcases a with _ | _ | _ <;> rcases b with _ | _ | _ <;> simp [or]

@[simp] lemma or_eq_false : or a b = some false ↔ a = some false ∧ b = some false := by
  rcases a with _ | _ | _ <;> rcases b with _ | _ | _ <;> simp [or]

lemma all_singleton (v : Truth) : all [v] = v := by
  rcases v with _ | _ | _ <;> rfl

lemma any_singleton (v : Truth) : any [v] = v := by
  rcases v with _ | _ | _ <;> rfl

variable {vs : List Truth}

lemma all_eq_true : all vs = some true ↔ ∀ v ∈ vs, v = some true := by
  induction vs with
  | nil => simp [all]
  | cons a r ih =>
    change and a (all r) = some true ↔ _
    rw [and_eq_true, ih, List.forall_mem_cons]

lemma all_eq_false : all vs = some false ↔ ∃ v ∈ vs, v = some false := by
  induction vs with
  | nil => simp [all]
  | cons a r ih =>
    change and a (all r) = some false ↔ _
    rw [and_eq_false, ih, List.exists_mem_cons_iff]

lemma any_eq_true : any vs = some true ↔ ∃ v ∈ vs, v = some true := by
  induction vs with
  | nil => simp [any]
  | cons a r ih =>
    change or a (any r) = some true ↔ _
    rw [or_eq_true, ih, List.exists_mem_cons_iff]

lemma any_eq_false : any vs = some false ↔ ∀ v ∈ vs, v = some false := by
  induction vs with
  | nil => simp [any]
  | cons a r ih =>
    change or a (any r) = some false ↔ _
    rw [or_eq_false, ih, List.forall_mem_cons]

/-- The second value is the first one or stands in for a NULL. -/
def Refines (a b : Truth) : Prop := ∀ v, a = some v → b = some v

namespace Refines

lemma not {a b : Truth} (h : Refines a b) : Refines (Truth.not a) (Truth.not b) := by
  intro v hv
  cases v with
  | true => exact not_eq_true.mpr (h _ (not_eq_true.mp hv))
  | false => exact not_eq_false.mpr (h _ (not_eq_false.mp hv))

variable {as bs : List Truth}

lemma all (h : List.Forall₂ Refines as bs) : Refines (Truth.all as) (Truth.all bs) := by
  induction h with
  | nil => exact fun _ hv => hv
  | cons hh _ ih =>
    intro v hv
    cases v with
    | true => exact and_eq_true.mpr ((and_eq_true.mp hv).imp (hh _) (ih _))
    | false => exact and_eq_false.mpr ((and_eq_false.mp hv).imp (hh _) (ih _))

lemma any (h : List.Forall₂ Refines as bs) : Refines (Truth.any as) (Truth.any bs) := by
  induction h with
  | nil => exact fun _ hv => hv
  | cons hh _ ih =>
    intro v hv
    cases v with
    | true => exact or_eq_true.mpr ((or_eq_true.mp hv).imp (hh _) (ih _))
    | false => exact or_eq_false.mpr ((or_eq_false.mp hv).imp (hh _) (ih _))

end Refines

end Truth

/-! ## Filters that stand for conditions -/

section Filters

variable {Row : Type} {f : Row → Bool} {c : Row → Truth}

/-- The filter selects the rows on which the condition is TRUE and no others. -/
def Exactly (filter : Row → Bool) (condition : Row → Truth) : Prop :=
  ∀ row, filter row = true ↔ condition row = some true

/-- The filter loses no row on which the condition is TRUE. -/
def Covers (filter : Row → Bool) (condition : Row → Truth) : Prop :=
  ∀ row, condition row = some true → filter row = true

lemma Exactly.covers (h : Exactly f c) : Covers f c := fun row => (h row).mpr

end Filters

end LagoDB.SqlLogic
