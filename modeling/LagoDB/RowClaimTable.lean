import LagoDB.RowRegistry

/-!
# Live claims of rows

The reference for the row registry is a table with at most one live claim per row,
which remembers who took the row and in which command. The registry spreads the
table over bitmaps of owners; every operation does to the table what it does to the
bitmaps.
-/
namespace LagoDB.RowClaims

open ActionLog List Option RelationRowRegistry MutationOwner RegisteredFile

/-! ## The table -/

/-- When and under which command a state first touched a file. -/
structure Ownership where
  commandId : CommandId
  nestLevel : ℤ
  deriving DecidableEq

def Ownership.promote (fromLevel : ℤ) (ownership : Ownership) : Ownership :=
  if fromLevel ≤ ownership.nestLevel then { ownership with nestLevel := fromLevel - 1 }
  else ownership

structure LiveClaim where
  owner : ModifyStateId
  commandId : CommandId
  deriving DecidableEq

/-- Registered paths by id, the files touched by each state, and who has taken a row. -/
structure ClaimTable where
  paths : List String
  touched : ModifyStateId → IcebergFileId → Option Ownership
  taken : IcebergFileId → ℕ → Option LiveClaim

namespace ClaimTable

def new : ClaimTable := ⟨[], fun _ _ => none, fun _ _ => none⟩

variable (table : ClaimTable) (state : ModifyStateId)

def take (fileId : IcebergFileId) (position : ℕ) (command : CommandId) :
    ClaimTable :=
  { table with
    taken := fun file row =>
      if file = fileId ∧ row = position then some ⟨state, command⟩ else table.taken file row }

def touch (fileId : IcebergFileId) (ownership : Ownership) : ClaimTable :=
  { table with
    touched := fun owner file =>
      if owner = state ∧ file = fileId then some ownership else table.touched owner file }

/-- The first to come takes a row. A state may not change its command within a file. -/
def claim (fileId : IcebergFileId) (position : ℕ) (command : CommandId)
    (nestLevel : ℤ) : Except IcebergError RowDeleteClaim × ClaimTable :=
  if fileId.raw < table.paths.length then
    match table.taken fileId position with
    | some live =>
      if live.owner = state ∧ live.commandId ≠ command then
        (.error multipleCommands, table)
      else (.ok (.previouslyModified live.commandId), table)
    | none =>
      match table.touched state fileId with
      | some ownership =>
        if ownership.commandId ≠ command then (.error multipleCommands, table)
        else (.ok .firstTouch, table.take state fileId position command)
      | none =>
        (.ok .firstTouch,
          (table.touch state fileId ⟨command, nestLevel⟩).take state fileId position command)
  else (.error (unknownFile fileId), table)

/-- Whether a state touched a file at a level that is rolled back. -/
def undone (targetLevel : ℤ) (state : ModifyStateId) (fileId : IcebergFileId) : Bool :=
  match table.touched state fileId with
  | some ownership => targetLevel ≤ ownership.nestLevel
  | none => false

def rollback (targetLevel : ℤ) : ClaimTable :=
  { table with
    touched := fun state fileId =>
      if table.undone targetLevel state fileId then none else table.touched state fileId
    taken := fun fileId position =>
      match table.taken fileId position with
      | some live => if table.undone targetLevel live.owner fileId then none else some live
      | none => none }

def promote (fromLevel : ℤ) : ClaimTable :=
  { table with
    touched := fun state fileId =>
      (table.touched state fileId).map (Ownership.promote fromLevel) }

def register (path : String) : ClaimTable :=
  if path ∈ table.paths ∨ maxIcebergFiles ≤ table.paths.length then table
  else { table with paths := table.paths ++ [path] }

end ClaimTable

/-! ## Registry and table -/

def MutationOwner.ownership (owner : MutationOwner) : Ownership :=
  ⟨owner.commandId, owner.nestLevel⟩

def MutationOwner.live (owner : MutationOwner) : LiveClaim :=
  ⟨owner.modifyStateId, owner.commandId⟩

/-- Ids and paths are inverse to one another, and no two owners share a state and a
file, or a bitmap. -/
structure Consistent (registry : RelationRowRegistry) : Prop where
  fileIds : ∀ path fileId, registry.fileIds.lookup path = some fileId ↔
    (registry.files[fileId.raw]?).map RegisteredFile.path = some path
  bounded : registry.files.length ≤ maxIcebergFiles
  states : ∀ fileId, ((registry.ownersOf fileId).map modifyStateId).Nodup
  known : ∀ fileId, ∀ owner ∈ registry.ownersOf fileId,
    owner.modifyStateId < registry.nextModifyStateId
  handles : ∀ fileId, ∀ owner ∈ registry.ownersOf fileId,
    owner.positions < registry.bitmaps.length
  unshared : ∀ fileId, ∀ owner ∈ registry.ownersOf fileId, ∀ otherFile,
    ∀ other ∈ registry.ownersOf otherFile, owner.positions = other.positions →
      fileId = otherFile ∧ owner = other

/-- The live claims are those in the bitmaps. -/
structure Refines (registry : RelationRowRegistry) (table : ClaimTable) : Prop where
  paths : table.paths = registry.files.map path
  touched : ∀ state fileId ownership, table.touched state fileId = some ownership ↔
    ∃ owner ∈ registry.ownersOf fileId, owner.modifyStateId = state ∧ owner.ownership = ownership
  taken : ∀ fileId position live, table.taken fileId position = some live ↔
    ∃ owner ∈ registry.ownersOf fileId,
      position ∈ registry.rowsOf owner.positions ∧ owner.live = live

/-! ## What a claim can do -/

variable {g : RelationRowRegistry} {s : ModifyStateId} {d : IcebergFileId} {p : ℕ} {c : CommandId}
  {l : ℤ} {owners : List MutationOwner}

lemma probeOwners_modified {own : Option MutationOwner} {f : CommandId}
    (h : g.probeOwners s p owners own = .modified f) :
    ∃ w ∈ owners, w.modifyStateId ≠ s ∧ p ∈ g.rowsOf w.positions ∧ w.commandId = f := by
  induction owners generalizing own with
  | nil => cases h
  | cons w r ih =>
    rw [probeOwners] at h
    split_ifs at h with hown hr
    · obtain ⟨o, ho, hf⟩ := ih h
      exact ⟨o, mem_cons_of_mem w ho, hf⟩
    · exact ⟨w, mem_cons_self, hown, hr, OwnerProbe.modified.inj h⟩
    · obtain ⟨o, ho, hf⟩ := ih h
      exact ⟨o, mem_cons_of_mem w ho, hf⟩

lemma probeOwners_unclaimed {own f : Option MutationOwner}
    (h : g.probeOwners s p owners own = .unclaimed f) :
    (∀ w ∈ owners, w.modifyStateId ≠ s → p ∉ g.rowsOf w.positions) ∧
    ((f = own ∧ ∀ w ∈ owners, w.modifyStateId ≠ s) ∨
      ∃ w ∈ owners, w.modifyStateId = s ∧ f = some w) := by
  induction owners generalizing own with
  | nil => refine ⟨by simp, .inl ⟨(OwnerProbe.unclaimed.inj h).symm, by simp⟩⟩
  | cons w r ih =>
    rw [probeOwners] at h
    split_ifs at h with hown hr
    · obtain ⟨ho, hf⟩ := ih h
      refine ⟨forall_mem_cons.mpr ⟨fun hne => absurd hown hne, ho⟩, .inr ?_⟩
      rcases hf with ⟨hs, -⟩ | ⟨o, hoth, hst, hs⟩
      · exact ⟨w, mem_cons_self, hown, hs⟩
      · exact ⟨o, mem_cons_of_mem w hoth, hst, hs⟩
    · obtain ⟨ho, hf⟩ := ih h
      refine ⟨forall_mem_cons.mpr ⟨fun _ => hr, ho⟩, ?_⟩
      rcases hf with ⟨hs, hn⟩ | ⟨o, hoth, hst, hs⟩
      · exact .inl ⟨hs, forall_mem_cons.mpr ⟨hown, hn⟩⟩
      · exact .inr ⟨o, mem_cons_of_mem w hoth, hst, hs⟩

inductive ClaimStep (registry : RelationRowRegistry) (state : ModifyStateId)
    (fileId : IcebergFileId) (position : ℕ) (command : CommandId) (nestLevel : ℤ) :
    Except IcebergError RowMutationClaim → RelationRowRegistry → Prop where
  | unknown (hfile : registry.files[fileId.raw]? = none) :
    ClaimStep registry state fileId position command nestLevel
      (.error (unknownFile fileId)) registry
  | foreign (owner : MutationOwner) (hmem : owner ∈ registry.ownersOf fileId)
    (hstate : owner.modifyStateId ≠ state) (hrow : position ∈ registry.rowsOf owner.positions) :
    ClaimStep registry state fileId position command nestLevel
      (.ok (.previouslyModified owner.commandId)) registry
  | otherCommand (owner : MutationOwner) (hmem : owner ∈ registry.ownersOf fileId)
    (hstate : owner.modifyStateId = state) (hcommand : owner.commandId ≠ command)
    (hothers : ∀ other ∈ registry.ownersOf fileId, other.modifyStateId ≠ state →
      position ∉ registry.rowsOf other.positions) :
    ClaimStep registry state fileId position command nestLevel
      (.error multipleCommands) registry
  | again (owner : MutationOwner) (hmem : owner ∈ registry.ownersOf fileId)
    (hstate : owner.modifyStateId = state) (hcommand : owner.commandId = command)
    (hrow : position ∈ registry.rowsOf owner.positions) :
    ClaimStep registry state fileId position command nestLevel
      (.ok (.previouslyModified owner.commandId)) registry
  | joined (owner : MutationOwner) (hmem : owner ∈ registry.ownersOf fileId)
    (hstate : owner.modifyStateId = state) (hcommand : owner.commandId = command)
    (hrow : position ∉ registry.rowsOf owner.positions)
    (hothers : ∀ other ∈ registry.ownersOf fileId, other.modifyStateId ≠ state →
      position ∉ registry.rowsOf other.positions) :
    ClaimStep registry state fileId position command nestLevel (.ok (.firstTouch none))
      (registry.insertRow owner.positions position)
  | first (file : RegisteredFile) (hfile : registry.files[fileId.raw]? = some file)
    (hnew : ∀ owner ∈ registry.ownersOf fileId, owner.modifyStateId ≠ state)
    (hothers : ∀ other ∈ registry.ownersOf fileId,
      position ∉ registry.rowsOf other.positions) :
    ClaimStep registry state fileId position command nestLevel
      (.ok (.firstTouch (some registry.bitmaps.length)))
      (registry.pushOwner file fileId state position command nestLevel)

variable {file : RegisteredFile}

lemma ownersOf_of_file (h : g.files[d.raw]? = some file) : g.ownersOf d = file.mutationOwners := by
  rw [ownersOf, h]

variable (r : RelationRowRegistry)

lemma claim_step (s : ModifyStateId) (d : IcebergFileId) (p : ℕ) (c : CommandId) (l : ℤ) :
    ∃ e next, r.claim s d p c l = (e, next) ∧ ClaimStep r s d p c l e next := by
  refine ⟨_, _, Prod.mk.eta.symm, ?_⟩
  rw [claim]
  split
  next hfi => exact .unknown hfi
  next file hfi =>
    have hown := ownersOf_of_file hfi
    split
    next f hp =>
      obtain ⟨o, hm, hs, hr, rfl⟩ := probeOwners_modified hp
      exact .foreign o (hown ▸ hm) hs hr
    next o hp =>
      obtain ⟨ho, hf⟩ := probeOwners_unclaimed hp
      rw [← hown] at ho hf
      obtain ⟨hm, hs⟩ : o ∈ r.ownersOf d ∧ o.modifyStateId = s := by
        rcases hf with ⟨hno, -⟩ | ⟨t, hot, hs, hsa⟩
        · cases hno
        · rw [Option.some.inj hsa]
          exact ⟨hot, hs⟩
      split_ifs with hc hr
      · exact .otherCommand o hm hs hc ho
      · exact .again o hm hs (not_not.mp hc) hr
      · exact .joined o hm hs (not_not.mp hc) hr ho
    next hp =>
      obtain ⟨ho, hf⟩ := probeOwners_unclaimed hp
      rw [← hown] at ho hf
      have hn : ∀ o ∈ r.ownersOf d, o.modifyStateId ≠ s := by
        rcases hf with ⟨-, hn⟩ | ⟨t, hot, hs, hsa⟩
        · exact hn
        · cases hsa
      exact .first file hfi hn fun t hot => ho t hot (hn t hot)

/-! ## Owners and bitmaps after an operation -/

@[simp] lemma ownersOf_insertRow (ps : OwnedRowPositions) (p : ℕ) (d : IcebergFileId) :
    (g.insertRow ps p).ownersOf d = g.ownersOf d := rfl

lemma rowsOf_insertRow {ps : OwnedRowPositions} (h : ps < g.bitmaps.length)
    (p : ℕ) (o : OwnedRowPositions) :
    (g.insertRow ps p).rowsOf o = if o = ps then insert p (g.rowsOf ps) else g.rowsOf o := by
  simp only [rowsOf, insertRow, getD_eq_getElem?_getD, getElem?_set]
  by_cases hs : ps = o
  · subst hs
    simp [h]
  · simp [hs, Ne.symm hs]

lemma IcebergFileId.ext_raw {f s : IcebergFileId} (h : f.raw = s.raw) : f = s := by
  cases f
  cases s
  simpa using h

lemma ownersOf_pushOwner (h : g.files[d.raw]? = some file) (o : IcebergFileId) :
    (g.pushOwner file d s p c l).ownersOf o = if o = d then
        g.ownersOf d ++ [⟨s, c, l, g.bitmaps.length⟩] else g.ownersOf o := by
  have hl : d.raw < g.files.length := (List.getElem?_eq_some_iff.mp h).1
  by_cases hs : o = d
  · subst hs
    rw [if_pos rfl, ownersOf_of_file h]
    simp [ownersOf, pushOwner, hl]
  · have hr : d.raw ≠ o.raw := fun heq => hs (IcebergFileId.ext_raw heq.symm)
    rw [if_neg hs]
    simp only [ownersOf, pushOwner, getElem?_set_ne hr]

lemma rowsOf_pushOwner (file : RegisteredFile) (o : OwnedRowPositions) :
    (g.pushOwner file d s p c l).rowsOf o = if o = g.bitmaps.length then {p} else g.rowsOf o := by
  simp only [rowsOf, pushOwner, getD_eq_getElem?_getD, getElem?_append]
  rcases Nat.lt_trichotomy o g.bitmaps.length with hlt | rfl | hlt
  · rw [if_pos hlt, if_neg (Nat.ne_of_lt hlt)]
  · simp
  · have hl : ([{p}] : List (Finset ℕ)).length ≤ o - g.bitmaps.length := by
      simp only [length_singleton]
      omega
    rw [if_neg (Nat.not_lt_of_lt hlt), if_neg (Nat.ne_of_gt hlt), getElem?_eq_none hl,
      getElem?_eq_none (Nat.le_of_lt hlt)]

lemma ownersOf_rollbackToLevel (t : ℤ) (d : IcebergFileId) :
    (g.rollbackToLevel t).ownersOf d = (g.ownersOf d).filter fun o => o.nestLevel < t := by
  simp only [ownersOf, rollbackToLevel, getElem?_map]
  cases g.files[d.raw]? <;> rfl

lemma ownersOf_promoteToLevel (f : ℤ) (d : IcebergFileId) :
    (g.promoteToLevel f).ownersOf d = (g.ownersOf d).map (promote f) := by
  simp only [ownersOf, promoteToLevel, getElem?_map]
  cases g.files[d.raw]? <;> rfl

inductive RegisterStep (registry : RelationRowRegistry) (path : String) :
    Except IcebergError IcebergFileId → RelationRowRegistry → Prop where
  | interned (fileId : IcebergFileId) (h : registry.fileIds.lookup path = some fileId) :
    RegisterStep registry path (.ok fileId) registry
  | full (error : IcebergError) (hpath : registry.fileIds.lookup path = none)
    (h : maxIcebergFiles ≤ registry.files.length) :
    RegisterStep registry path (.error error) registry
  | added (hpath : registry.fileIds.lookup path = none)
    (h : registry.files.length < maxIcebergFiles) :
    RegisterStep registry path (.ok ⟨registry.files.length, h⟩)
      { registry with
        fileIds := (path, ⟨registry.files.length, h⟩) :: registry.fileIds
        files := registry.files ++ [⟨path, []⟩] }

lemma registerFile_step (path : String) :
    ∃ e next, r.registerFile path = (e, next) ∧ RegisterStep r path e next := by
  refine ⟨_, _, Prod.mk.eta.symm, ?_⟩
  rw [registerFile]
  have hmax : maxIcebergFiles ≤ 2 ^ 32 := by decide
  split
  next d hp => exact .interned d hp
  next hp =>
    by_cases hr : r.files.length < maxIcebergFiles
    · rw [if_pos (lt_of_lt_of_le hr hmax), IcebergFileId.tryFromRaw, dif_pos hr]
      exact .added hp hr
    · have hf := not_lt.mp hr
      split_ifs with hs
      · rw [IcebergFileId.tryFromRaw, dif_neg hr]
        exact .full _ hp hf
      · exact .full _ hp hf

/-! ## Claims do to the table what they do to the bitmaps -/

/-- Whether a row was taken, without the bitmap. -/
def RowMutationClaim.outcome : RowMutationClaim → RowDeleteClaim
  | .firstTouch _ => .firstTouch
  | .previouslyModified modifyingCommandId => .previouslyModified modifyingCommandId

lemma Consistent.owner_eq (h : Consistent g) {w o : MutationOwner} (how : w ∈ g.ownersOf d)
    (ho : o ∈ g.ownersOf d) (hs : w.modifyStateId = o.modifyStateId) : w = o :=
  inj_on_of_nodup_map (h.states d) how ho hs

section Facts

variable {t : ClaimTable} (h : Refines g t)

include h

lemma Refines.taken_eq_none (d : IcebergFileId) (p : ℕ) :
    t.taken d p = none ↔ ∀ o ∈ g.ownersOf d, p ∉ g.rowsOf o.positions := by
  rw [eq_none_iff_forall_ne_some]
  constructor
  · intro hn o ho hr
    exact hn o.live ((h.taken d p o.live).mpr ⟨o, ho, hr, rfl⟩)
  · intro hn l hl
    obtain ⟨o, ho, hr, -⟩ := (h.taken d p l).mp hl
    exact hn o ho hr

lemma Refines.touched_eq_none (s : ModifyStateId) (d : IcebergFileId) :
    t.touched s d = none ↔ ∀ w ∈ g.ownersOf d, w.modifyStateId ≠ s := by
  rw [eq_none_iff_forall_ne_some]
  constructor
  · intro hn w ho hs
    exact hn w.ownership ((h.touched s d w.ownership).mpr ⟨w, ho, hs, rfl⟩)
  · intro hn o ht
    obtain ⟨w, ho, hs, -⟩ := (h.touched s d o).mp ht
    exact hn w ho hs

lemma Refines.known_iff (d : IcebergFileId) :
    d.raw < t.paths.length ↔ ∃ file, g.files[d.raw]? = some file := by
  rw [h.paths, length_map]
  exact ⟨fun hlt => ⟨_, List.getElem?_eq_getElem hlt⟩,
    fun ⟨_, hf⟩ => (List.getElem?_eq_some_iff.mp hf).1⟩

lemma Refines.known_of_owner {o : MutationOwner}
    (ho : o ∈ g.ownersOf d) : d.raw < t.paths.length := by
  rw [h.known_iff]
  cases hf : g.files[d.raw]? with
  | none => simp [ownersOf, hf] at ho
  | some file => exact ⟨file, rfl⟩

end Facts

variable {t : ClaimTable}

lemma Refines.take (h : Refines g t) (hc : Consistent g) {w : MutationOwner}
    (hm : w ∈ g.ownersOf d) (hst : w.modifyStateId = s) (hco : w.commandId = c)
    (hf : ∀ o ∈ g.ownersOf d, p ∉ g.rowsOf o.positions) :
    Refines (g.insertRow w.positions p) (t.take s d p c) := by
  refine ⟨h.paths, h.touched, fun file row l => ?_⟩
  have hr (o : MutationOwner) (ho : o ∈ g.ownersOf file) :
      row ∈ (g.insertRow w.positions p).rowsOf o.positions ↔ row ∈ g.rowsOf o.positions ∨
          (file = d ∧ row = p ∧ o = w) := by
    rw [rowsOf_insertRow (hc.handles d w hm)]
    split_ifs with hs
    · obtain ⟨rfl, rfl⟩ := hc.unshared file o ho d w hm hs
      simp [or_comm]
    · have hne : o ≠ w := fun heq => hs (heq ▸ rfl)
      simp [hne]
  have hl : w.live = ⟨s, c⟩ := by rw [MutationOwner.live, hst, hco]
  simp only [ClaimTable.take, ownersOf_insertRow]
  split_ifs with hro
  · obtain ⟨rfl, rfl⟩ := hro
    rw [← hl, some_inj]
    constructor
    · rintro rfl
      exact ⟨w, hm, (hr w hm).mpr (.inr ⟨rfl, rfl, rfl⟩), rfl⟩
    · rintro ⟨o, ho, ht, rfl⟩
      rcases (hr o ho).mp ht with hol | ⟨-, -, rfl⟩
      · exact absurd hol (hf o ho)
      · rfl
  · rw [h.taken]
    refine exists_congr fun o => and_congr_right fun ho => ?_
    rw [hr o ho]
    have hnot : ¬(file = d ∧ row = p ∧ o = w) := fun ha => hro ⟨ha.1, ha.2.1⟩
    rw [or_iff_left hnot]

lemma paths_pushOwner (h : g.files[d.raw]? = some file) :
    (g.pushOwner file d s p c l).files.map path = g.files.map path := by
  refine ext_getElem? fun i => ?_
  simp only [pushOwner, getElem?_map, getElem?_set]
  split_ifs with hs hl
  · rw [← hs, h]
    rfl
  · rw [← hs, getElem?_eq_none (not_lt.mp hl)]
  · rfl

lemma Refines.own (h : Refines g t) (hc : Consistent g) (hf : g.files[d.raw]? = some file)
    (hne : ∀ w ∈ g.ownersOf d, w.modifyStateId ≠ s)
    (hfr : ∀ o ∈ g.ownersOf d, p ∉ g.rowsOf o.positions) :
    Refines (g.pushOwner file d s p c l) ((t.touch s d ⟨c, l⟩).take s d p c) := by
  -- the bitmaps of the owners that were there are not touched
  have hr (f' : IcebergFileId) (w : MutationOwner) (how : w ∈ g.ownersOf f') :
      (g.pushOwner file d s p c l).rowsOf w.positions = g.rowsOf w.positions := by
    rw [rowsOf_pushOwner, if_neg (Nat.ne_of_lt (hc.handles f' w how))]
  refine ⟨?_, fun w o own => ?_, fun o row live => ?_⟩
  · rw [paths_pushOwner hf, ← h.paths]
    rfl
  · simp only [ClaimTable.take, ClaimTable.touch]
    rw [ownersOf_pushOwner hf]
    by_cases ho : o = d
    · subst ho
      rw [if_pos rfl]
      simp only [and_true, mem_append, mem_singleton, or_and_right, exists_or, exists_eq_left]
      split_ifs with hst
      · subst hst
        have hn : ¬∃ f ∈ g.ownersOf o, f.modifyStateId = w ∧
            f.ownership = own := fun ⟨f, hfo, hs, _⟩ =>
          hne f hfo hs
        rw [or_iff_right hn]
        simp [ownership]
      · rw [h.touched, or_iff_left fun hs => hst hs.1.symm]
    · rw [if_neg ho, if_neg fun hs => ho hs.2, h.touched]
  · simp only [ClaimTable.take, ClaimTable.touch]
    rw [ownersOf_pushOwner hf]
    by_cases ho : o = d
    · subst ho
      rw [if_pos rfl]
      simp only [true_and, mem_append, mem_singleton, or_and_right, exists_or, exists_eq_left]
      have hol : (∃ w ∈ g.ownersOf o, row ∈ (g.pushOwner file o s
          p c l).rowsOf w.positions ∧ w.live = live) ↔
          ∃ w ∈ g.ownersOf o, row ∈ g.rowsOf w.positions ∧ w.live = live :=
        exists_congr fun w => and_congr_right fun how => by rw [hr o w how]
      rw [hol, rowsOf_pushOwner, if_pos rfl, Finset.mem_singleton]
      split_ifs with hro
      · subst hro
        have hn : ¬∃ w ∈ g.ownersOf o, row ∈ g.rowsOf w.positions ∧
            w.live = live := fun ⟨w, how, ht, _⟩ => hfr w how ht
        rw [or_iff_right hn]
        simp [MutationOwner.live]
      · rw [h.taken, or_iff_left fun hs => hro hs.1]
    · rw [if_neg ho, if_neg fun hs => ho hs.1, h.taken]
      exact exists_congr fun w => and_congr_right fun how => by
        rw [hr o w how]

lemma Refines.claim (h : Refines g t) (hco : Consistent g) (s : ModifyStateId) (d : IcebergFileId)
    (p : ℕ) (c : CommandId) (l : ℤ) :
    (g.claim s d p c l).1.map RowMutationClaim.outcome = (t.claim s d p c l).1 ∧
      Refines (g.claim s d p c l).2 (t.claim s d p c l).2 := by
  obtain ⟨r, n, hres, hst⟩ := claim_step g s d p c l
  rw [hres]
  dsimp only
  cases hst with
  | unknown hfi =>
    have hu : ¬d.raw < t.paths.length := by
      rw [h.known_iff]
      rintro ⟨file, hso⟩
      rw [hfi] at hso
      cases hso
    rw [ClaimTable.claim, if_neg hu]
    exact ⟨rfl, h⟩
  | foreign o hm hs hr =>
    have ht := (h.taken d p o.live).mpr ⟨o, hm, hr, rfl⟩
    have ho : ¬(o.live.owner = s ∧ o.live.commandId ≠ c) := fun hsa => hs hsa.1
    simp only [ClaimTable.claim, if_pos (h.known_of_owner hm), ht, if_neg ho]
    exact ⟨rfl, h⟩
  | otherCommand o hm hs hc hot =>
    have hto := (h.touched s d o.ownership).mpr ⟨o, hm, hs, rfl⟩
    have hre : o.ownership.commandId ≠ c := hc
    cases ht : t.taken d p with
    | none =>
      simp only [ClaimTable.claim, if_pos (h.known_of_owner hm), ht, hto, if_pos hre]
      exact ⟨rfl, h⟩
    | some live =>
      obtain ⟨u, ho, hr, rfl⟩ := (h.taken d p live).mp ht
      have hsa : u.modifyStateId = s := by
        by_contra hf
        exact hot u ho hf hr
      obtain rfl := hco.owner_eq hm ho (hs.trans hsa.symm)
      have hown : o.live.owner = s ∧ o.live.commandId ≠ c := ⟨hs, hc⟩
      simp only [ClaimTable.claim, if_pos (h.known_of_owner hm), ht, if_pos hown]
      exact ⟨rfl, h⟩
  | again o hm hs hc hr =>
    have ht := (h.taken d p o.live).mpr ⟨o, hm, hr, rfl⟩
    have hsa : ¬(o.live.owner = s ∧ o.live.commandId ≠ c) := fun ho => ho.2 hc
    simp only [ClaimTable.claim, if_pos (h.known_of_owner hm), ht, if_neg hsa]
    exact ⟨rfl, h⟩
  | joined o hm hs hc hr hot =>
    have hfr : ∀ u ∈ g.ownersOf d, p ∉ g.rowsOf u.positions := by
      intro u ho
      by_cases hf : u.modifyStateId = s
      · rwa [← hco.owner_eq hm ho (hs.trans hf.symm)]
      · exact hot u ho hf
    have hto := (h.touched s d o.ownership).mpr ⟨o, hm, hs, rfl⟩
    have ha : ¬o.ownership.commandId ≠ c := not_not.mpr hc
    simp only [ClaimTable.claim, if_pos (h.known_of_owner hm),
      (h.taken_eq_none d p).mpr hfr, hto, if_neg ha]
    exact ⟨rfl, h.take hco hm hs hc hfr⟩
  | first file hfi hn hot =>
    have hk : d.raw < t.paths.length := (h.known_iff d).mpr ⟨file, hfi⟩
    simp only [ClaimTable.claim, if_pos hk, (h.taken_eq_none d p).mpr hot,
      (h.touched_eq_none s d).mpr hn]
    exact ⟨rfl, h.own hco hfi hn hot⟩

end LagoDB.RowClaims
