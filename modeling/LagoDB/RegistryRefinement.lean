import LagoDB.RowClaimTable

/-!
# The registry keeps its table

Every operation of the row registry keeps ids and paths inverse to one another and
owners apart, and does to the table of live claims what its name says.
-/
namespace LagoDB.RowClaims

open ActionLog List RegisteredFile MutationOwner RelationRowRegistry

variable {g : RelationRowRegistry} {t : ModifyStateId} {d : IcebergFileId} {p : ℕ} {c : CommandId}
  {l : ℤ}

/-! ## Consistency -/

lemma lookup_cons_path (path o : String) (d : IcebergFileId) (fs : List (String × IcebergFileId)) :
    ((path, d) :: fs).lookup o = if o = path then some d else fs.lookup o := by
  rw [lookup_cons]
  split_ifs with hs
  · rw [beq_iff_eq.mpr hs]
  · rw [beq_eq_false_iff_ne.mpr hs]

lemma Consistent.new : Consistent .new := by
  constructor <;> simp [RelationRowRegistry.new, ownersOf]

lemma Refines.new : Refines .new .new := by
  constructor <;> simp [RelationRowRegistry.new, ClaimTable.new, ownersOf]

lemma Consistent.claim (h : Consistent g) (hst : t < g.nextModifyStateId) :
    Consistent (g.claim t d p c l).2 := by
  obtain ⟨r, next, hr, hste⟩ := claim_step g t d p c l
  rw [hr]
  cases hste with
  | unknown | foreign | otherCommand | again => exact h
  | joined w hm how hc hro hothe =>
    refine ⟨h.fileIds, h.bounded, h.states, h.known, fun f o hot => ?_, h.unshared⟩
    have hl : (g.insertRow w.positions p).bitmaps.length = g.bitmaps.length := length_set
    rw [hl]
    exact h.handles f o hot
  | first f hf hn hothe =>
    have hm (o : IcebergFileId) (w : MutationOwner) : w ∈ (g.pushOwner f d t p c l).ownersOf o ↔
          w ∈ g.ownersOf o ∨ (o = d ∧ w = ⟨t, c, l, g.bitmaps.length⟩) := by
      rw [ownersOf_pushOwner hf]
      split_ifs with hs
      · simp [hs]
      · simp [hs]
    have hl : (g.pushOwner f d t p c l).bitmaps.length = g.bitmaps.length + 1 := length_append
    refine ⟨fun path o => ?_, ?_, fun o => ?_, fun o w ho => ?_, fun o w ho => ?_, ?_⟩
    · rw [← getElem?_map, paths_pushOwner hf, getElem?_map]
      exact h.fileIds path o
    · rw [pushOwner, length_set]
      exact h.bounded
    · rw [ownersOf_pushOwner hf]
      split_ifs with hs
      · rw [map_append, nodup_append]
        refine ⟨h.states d, nodup_singleton _, ?_⟩
        simpa using hn
      · exact h.states o
    · rcases (hm o w).mp ho with hol | ⟨-, rfl⟩
      · exact h.known o w hol
      · exact hst
    · rw [hl]
      rcases (hm o w).mp ho with hol | ⟨-, rfl⟩
      · exact Nat.lt_succ_of_lt (h.handles o w hol)
      · exact Nat.lt_succ_self _
    · intro first w ho s o hot hs
      rcases (hm first w).mp ho with hol | ⟨rfl, rfl⟩
      · rcases (hm s o).mp hot with hol' | ⟨rfl, rfl⟩
        · exact h.unshared first w hol s o hol' hs
        · exact absurd hs (Nat.ne_of_lt (h.handles first w hol))
      · rcases (hm s o).mp hot with hol' | ⟨rfl, rfl⟩
        · exact absurd hs.symm (Nat.ne_of_lt (h.handles s o hol'))
        · exact ⟨rfl, rfl⟩

lemma paths_rollbackToLevel (t : ℤ) : (g.rollbackToLevel t).files.map path = g.files.map path := by
  rw [rollbackToLevel, map_map]
  rfl

lemma paths_promoteToLevel (f : ℤ) : (g.promoteToLevel f).files.map path = g.files.map path := by
  rw [promoteToLevel, map_map]
  rfl

lemma Consistent.rollback (h : Consistent g) (t : ℤ) : Consistent (g.rollbackToLevel t) := by
  have hm {d : IcebergFileId} {o : MutationOwner} (ho : o ∈ (g.rollbackToLevel t).ownersOf d) :
      o ∈ g.ownersOf d := by
    rw [ownersOf_rollbackToLevel] at ho
    exact mem_of_mem_filter ho
  refine ⟨fun p d => ?_, ?_, fun d => ?_, fun d o ho =>
    h.known d o (hm ho), fun d o ho =>
    h.handles d o (hm ho), fun f o ho s u hot =>
    h.unshared f o (hm ho) s u (hm hot)⟩
  · rw [← getElem?_map, paths_rollbackToLevel, getElem?_map]
    exact h.fileIds p d
  · rw [rollbackToLevel, length_map]
    exact h.bounded
  · rw [ownersOf_rollbackToLevel]
    exact (h.states d).sublist (filter_sublist.map _)

lemma MutationOwner.promote_fields (f : ℤ) (o : MutationOwner) :
    (o.promote f).modifyStateId = o.modifyStateId ∧ (o.promote f).positions = o.positions ∧
      (o.promote f).live = o.live ∧ (o.promote f).ownership = o.ownership.promote f := by
  rw [promote, live, live, ownership, ownership, Ownership.promote]
  split_ifs <;> simp

lemma Consistent.promote (h : Consistent g) (l : ℤ) : Consistent (g.promoteToLevel l) := by
  have hm {d : IcebergFileId} {o : MutationOwner} (ho : o ∈ (g.promoteToLevel l).ownersOf d) :
      ∃ old ∈ g.ownersOf d, o = old.promote l := by
    rw [ownersOf_promoteToLevel] at ho
    obtain ⟨old, hol, rfl⟩ := mem_map.mp ho
    exact ⟨old, hol, rfl⟩
  refine ⟨fun p d => ?_, ?_, fun d => ?_, fun d o ho => ?_,
    fun d o ho => ?_, fun f o ho s t hot hsa => ?_⟩
  · rw [← getElem?_map, paths_promoteToLevel, getElem?_map]
    exact h.fileIds p d
  · rw [promoteToLevel, length_map]
    exact h.bounded
  · have hs : MutationOwner.modifyStateId ∘ MutationOwner.promote l =
        MutationOwner.modifyStateId :=
      funext fun o => (MutationOwner.promote_fields l o).1
    rw [ownersOf_promoteToLevel, map_map, hs]
    exact h.states d
  · obtain ⟨old, hol, rfl⟩ := hm ho
    rw [(promote_fields l old).1]
    exact h.known d old hol
  · obtain ⟨old, hol, rfl⟩ := hm ho
    rw [(promote_fields l old).2.1]
    exact h.handles d old hol
  · obtain ⟨old, hol, rfl⟩ := hm ho
    obtain ⟨old', hol', rfl⟩ := hm hot
    rw [(promote_fields l old).2.1, (promote_fields l old').2.1] at hsa
    obtain ⟨rfl, rfl⟩ := h.unshared f old hol s old' hol' hsa
    exact ⟨rfl, rfl⟩

variable {b : ClaimTable}

lemma Refines.undone_iff (h : Refines g b) {o : MutationOwner} (ho : o ∈ g.ownersOf d) (t : ℤ) :
    b.undone t o.modifyStateId d = true ↔ t ≤ o.nestLevel := by
  have ht := (h.touched o.modifyStateId d o.ownership).mpr ⟨o, ho, rfl, rfl⟩
  rw [ClaimTable.undone, ht]
  exact decide_eq_true_iff

lemma Refines.rollback (h : Refines g b) (l : ℤ) :
    Refines (g.rollbackToLevel l) (b.rollback l) := by
  refine ⟨?_, fun t d w => ?_, fun d p live => ?_⟩
  · rw [paths_rollbackToLevel]
    exact h.paths
  · simp only [ClaimTable.rollback, ownersOf_rollbackToLevel, mem_filter,
      decide_eq_true_eq, and_assoc]
    constructor
    · intro hto
      split_ifs at hto with hu
      obtain ⟨o, ho, rfl, rfl⟩ := (h.touched t d w).mp hto
      rw [h.undone_iff ho, not_le] at hu
      exact ⟨o, ho, hu, rfl, rfl⟩
    · rintro ⟨o, ho, hk, rfl, rfl⟩
      rw [if_neg (by rw [h.undone_iff ho]; omega)]
      exact (h.touched _ d _).mpr ⟨o, ho, rfl, rfl⟩
  · simp only [ClaimTable.rollback, ownersOf_rollbackToLevel, mem_filter,
      decide_eq_true_eq, and_assoc]
    constructor
    · intro ht
      split at ht
      next f hf =>
        split_ifs at ht with hu
        obtain rfl := Option.some.inj ht
        obtain ⟨o, ho, hr, rfl⟩ := (h.taken d p f).mp hf
        have hk : ¬l ≤ o.nestLevel := fun hle => hu ((h.undone_iff ho l).mpr hle)
        exact ⟨o, ho, not_le.mp hk, hr, rfl⟩
      next => cases ht
    · rintro ⟨o, ho, hk, hr, rfl⟩
      have ht := (h.taken d p o.live).mpr ⟨o, ho, hr, rfl⟩
      have hu : ¬b.undone l o.live.owner d = true := fun hu =>
        not_le.mpr hk ((h.undone_iff ho l).mp hu)
      rw [ht]
      exact if_neg hu

lemma Refines.promote (h : Refines g b) (f : ℤ) : Refines (g.promoteToLevel f) (b.promote f) := by
  refine ⟨?_, fun t d w => ?_, fun d p l => ?_⟩
  · rw [paths_promoteToLevel]
    exact h.paths
  · simp only [ClaimTable.promote, ownersOf_promoteToLevel, mem_map,
      Option.map_eq_some_iff, h.touched]
    constructor
    · rintro ⟨_, ⟨o, ho, rfl, rfl⟩, rfl⟩
      obtain ⟨hs, -, -, how⟩ := promote_fields f o
      exact ⟨_, ⟨o, ho, rfl⟩, hs, how⟩
    · rintro ⟨_, ⟨o, ho, rfl⟩, rfl, rfl⟩
      obtain ⟨hs, -, -, how⟩ := promote_fields f o
      exact ⟨o.ownership, ⟨o, ho, hs.symm, rfl⟩, how.symm⟩
  · rw [ownersOf_promoteToLevel]
    have hsa := h.taken d p l
    rw [show (b.promote f).taken = b.taken from rfl, hsa]
    simp only [mem_map]
    constructor
    · rintro ⟨o, ho, hr, rfl⟩
      obtain ⟨-, hp, hl, -⟩ := promote_fields f o
      exact ⟨_, ⟨o, ho, rfl⟩, by rwa [hp], hl⟩
    · rintro ⟨_, ⟨o, ho, rfl⟩, hr, rfl⟩
      obtain ⟨-, hp, hl, -⟩ := promote_fields f o
      exact ⟨o, ho, by rwa [hp] at hr, hl.symm⟩

lemma Consistent.lookup_eq_none (h : Consistent g) (path : String) :
    g.fileIds.lookup path = none ↔ path ∉ g.files.map RegisteredFile.path := by
  rw [Option.eq_none_iff_forall_ne_some, mem_iff_getElem?]
  constructor
  · rintro hn ⟨i, hi⟩
    have hl : i < g.files.length := by simpa using (List.getElem?_eq_some_iff.mp hi).1
    refine hn ⟨i, lt_of_lt_of_le hl h.bounded⟩ ((h.fileIds path _).mpr ?_)
    rwa [← getElem?_map]
  · rintro hn d hf
    refine hn ⟨d.raw, ?_⟩
    rw [getElem?_map]
    exact (h.fileIds path d).mp hf

lemma ownersOf_added (path : String) (fs : List (String × IcebergFileId)) (d : IcebergFileId) :
    ownersOf { g with fileIds := fs, files := g.files ++ [⟨path, []⟩] } d =
      g.ownersOf d := by
  simp only [ownersOf, getElem?_append]
  split_ifs with hlt
  · rfl
  · rw [getElem?_eq_none (not_lt.mp hlt)]
    cases d.raw - g.files.length <;> rfl

lemma Consistent.register (h : Consistent g) (path : String) :
    Consistent (g.registerFile path).2 := by
  obtain ⟨r, n, hr, hst⟩ := registerFile_step g path
  rw [hr]
  dsimp only
  cases hst with
  | interned | full => exact h
  | added hp hro =>
    have hn : path ∉ g.files.map RegisteredFile.path := (h.lookup_eq_none path).mp hp
    refine ⟨fun o d => ?_, ?_, fun d => ?_, fun d => ?_, fun d => ?_, fun d => ?_⟩
    · rw [lookup_cons_path, getElem?_append]
      split_ifs with hs hlt hlt
      · subst hs
        have hol : ¬((g.files[d.raw]?).map path = some o) := by
          rw [← getElem?_map]
          exact fun hf => hn (mem_of_getElem? hf)
        refine iff_of_false (fun hf => ?_) hol
        rw [← Option.some.inj hf] at hlt
        exact lt_irrefl _ hlt
      · subst hs
        rw [Option.some_inj]
        constructor
        · rintro rfl
          simp
        · intro hf
          refine IcebergFileId.ext_raw ?_
          by_contra hs
          have hne : g.files.length ≠ d.raw := hs
          have hl : ([⟨o, []⟩] : List RegisteredFile).length ≤ d.raw - g.files.length := by
            simp only [length_singleton]
            omega
          rw [getElem?_eq_none hl] at hf
          cases hf
      · exact h.fileIds o d
      · rw [h.fileIds, getElem?_eq_none (not_lt.mp hlt)]
        refine iff_of_false (by simp) fun hf => hs ?_
        obtain ⟨file, hm, rfl⟩ := Option.map_eq_some_iff.mp hf
        rw [mem_singleton.mp (mem_of_getElem? hm)]
    · rw [length_append]
      exact hro
    · rw [ownersOf_added]
      exact h.states d
    · rw [ownersOf_added]
      exact h.known d
    · rw [ownersOf_added]
      exact h.handles d
    · intro w ho o f hfo
      rw [ownersOf_added] at ho hfo
      exact h.unshared d w ho o f hfo

lemma Refines.register (h : Refines g b) (hc : Consistent g) (path : String) :
    Refines (g.registerFile path).2 (b.register path) := by
  obtain ⟨r, n, hr, hs⟩ := registerFile_step g path
  rw [hr]
  cases hs with
  | interned d hp =>
    have hm : path ∈ b.paths := by
      rw [h.paths]
      by_contra hnot
      rw [(hc.lookup_eq_none path).mpr hnot] at hp
      cases hp
    rw [ClaimTable.register, if_pos (.inl hm)]
    exact h
  | full e hp hf =>
    have hl : maxIcebergFiles ≤ b.paths.length := by rwa [h.paths, length_map]
    rw [ClaimTable.register, if_pos (.inr hl)]
    exact h
  | added hp hro =>
    have hn : ¬(path ∈ b.paths ∨ maxIcebergFiles ≤ b.paths.length) := by
      rw [h.paths, length_map, not_or, not_le]
      exact ⟨(hc.lookup_eq_none path).mp hp, hro⟩
    rw [ClaimTable.register, if_neg hn]
    refine ⟨?_, fun t d o => ?_, fun d p l => ?_⟩
    · simp [h.paths]
    · rw [ownersOf_added]
      exact h.touched t d o
    · rw [ownersOf_added]
      exact h.taken d p l

end LagoDB.RowClaims
