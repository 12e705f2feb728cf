import Mathlib.Data.Multiset.Dedup

/-!
# Groups of a multiset

The rows of a multiset that agree on a key form a group. Which groups there are
depends on the key only by which rows it tells apart.
-/
namespace LagoDB.Grouping

open Multiset

universe u v w

variable {α : Type u} {κ : Type v} {ι : Type w} [DecidableEq κ] [DecidableEq ι] {rows : Multiset α}
  {key : α → κ}

/-- One group for each key. -/
def groupsBy (key : α → κ) (rows : Multiset α) : Multiset (Multiset α) :=
  (rows.map key).dedup.map fun k => rows.filter fun a => key a = k

lemma mem_groupsBy {ms : Multiset α} :
    ms ∈ groupsBy key rows ↔ ∃ a ∈ rows, rows.filter (fun b => key b = key a) = ms := by
  simp only [groupsBy, mem_map, mem_dedup]
  constructor
  · rintro ⟨_, ⟨a, ha, rfl⟩, rfl⟩
    exact ⟨a, ha, rfl⟩
  · rintro ⟨a, ha, rfl⟩
    exact ⟨key a, ⟨a, ha, rfl⟩, rfl⟩

lemma nodup_groupsBy (key : α → κ) (rows : Multiset α) : (groupsBy key rows).Nodup := by
  refine Multiset.Nodup.map_on ?_ (nodup_dedup _)
  intro k hk o _ hs
  obtain ⟨a, ha, rfl⟩ := mem_map.mp (mem_dedup.mp hk)
  have hm : a ∈ rows.filter fun b => key b = o := by
    rw [← hs]
    exact mem_filter.mpr ⟨ha, rfl⟩
  exact (mem_filter.mp hm).2

lemma groupsBy_congr {o : α → ι} (h : ∀ a ∈ rows, ∀ b ∈ rows, key a = key b ↔ o a = o b) :
    groupsBy key rows = groupsBy o rows := by
  refine ((nodup_groupsBy key rows).ext (nodup_groupsBy o rows)).mpr fun m => ?_
  rw [mem_groupsBy, mem_groupsBy]
  refine exists_congr fun a => and_congr_right fun ha => ?_
  have hf : (rows.filter fun b => key b = key a) = rows.filter fun b => o b = o a :=
    filter_congr fun b hb => h b hb a ha
  rw [hf]

lemma groupsBy_zero (key : α → κ) : groupsBy key 0 = 0 := by
  simp [groupsBy]

lemma groupsBy_of_const (hr : rows ≠ 0) (h : ∀ a ∈ rows, ∀ b ∈ rows, key a = key b) :
    groupsBy key rows = {rows} := by
  refine ((nodup_groupsBy key rows).ext (nodup_singleton rows)).mpr fun m => ?_
  have hf (a : α) (ha : a ∈ rows) : (rows.filter fun b => key b = key a) = rows :=
    filter_eq_self.mpr fun b hb => h b hb a ha
  rw [mem_groupsBy, mem_singleton]
  constructor
  · rintro ⟨a, ha, rfl⟩
    exact hf a ha
  · rintro rfl
    obtain ⟨a, ha⟩ := exists_mem_of_ne_zero hr
    exact ⟨a, ha, hf a ha⟩

end LagoDB.Grouping
