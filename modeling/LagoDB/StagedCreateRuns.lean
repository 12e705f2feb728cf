import LagoDB.FileLifecycle
import LagoDB.StagedGenerations

/-!
# Runs of staged creations

A transaction stages, drops and writes foreign tables under several roles between
subtransaction events. It is compared with a machine that copies all its tables at the
start of every subtransaction. Catalog sessions and their invalidation last for the
whole transaction in both.
-/
namespace LagoDB.StagedCreates

open ActionLog Savepoint TableState List Function Tables TablesView Mutation ForeignTableGeneration
open TableTransactionState

variable {T : Provider} {B : Type}

/-! ## Operations on the tables -/

def Operation.act (level : ℕ) (tables : Tables T B) : Operation T B → Tables T B
  | .create key relationOid staged =>
    if admitsCreate (tables.stagedCreateDisposition key) then
      tables.insertStaged key relationOid level staged
    else tables
  | .drop relationOid => (tables.dropStagedRelation relationOid level).1
  | .batch key write => (tables.stageBatch key level write).1

/-- PostgreSQL drops no relation that is already gone. -/
def Operation.Admitted : Operation T B → TablesView T B → Prop
  | .drop relationOid, tables => tables.Droppable relationOid
  | _, _ => True

instance (op : Operation T B) (tables : TablesView T B) : Decidable (op.Admitted tables) :=
  match op with
  | .drop relationOid => inferInstanceAs (Decidable (tables.Droppable relationOid))
  | .create .. => isTrue trivial
  | .batch .. => isTrue trivial

section Entries

variable {σ : Type}

lemma view_modifyEntry (key : RemoteTableKey)
    {f : ForeignTableState T B → ForeignTableState T B} {g : StateView T B → StateView T B}
    (ts : Tables T B) (h : ∀ e ∈ ts, e.1 = key → (f e.2).view = g e.2.view) :
    view (modifyEntry key f ts) = modifyEntry key g ts.view := by
  simp only [Tables.view, modifyEntry, map_map]
  refine map_congr_left fun e he => ?_
  simp only [comp_apply]
  by_cases hk : e.1 = key
  · simp only [if_pos hk, h e he hk]
  · simp only [if_neg hk]

variable {ts : List (RemoteTableKey × σ)} {key : RemoteTableKey}

lemma mem_modifyEntry {f : σ → σ} {e : RemoteTableKey × σ} (h : e ∈ modifyEntry key f ts) :
    ∃ o ∈ ts, e.1 = o.1 ∧ (o.1 = key ∧ e.2 = f o.2 ∨ o.1 ≠ key ∧ e.2 = o.2) := by
  obtain ⟨o, ho, rfl⟩ := mem_map.mp h
  refine ⟨o, ho, ?_⟩
  by_cases hk : o.1 = key
  · simp [hk]
  · simp [hk]

lemma modifyEntry_of_absent (f : σ → σ) (h : ∀ e ∈ ts, e.1 ≠ key) : modifyEntry key f ts = ts := by
  refine (map_congr_left fun e he => ?_).trans (map_id ts)
  simp only [if_neg (h e he), id]

end Entries

namespace ForeignTableGeneration

variable (g : ForeignTableGeneration T B)

lemma view_isActive : g.view.isActive = g.hasActiveStagedRelation := by
  simp only [GenerationView.isActive, view, Option.any_map]
  rfl

lemma view_owns (o : ℕ) : g.view.owns o = g.ownsStagedRelation o := by
  simp only [GenerationView.owns, view, Option.any_map]
  rfl

lemma dropStagedRelation_cases (o v : ℕ) : (g.ownsStagedRelation o = false ∧
        (g.dropStagedRelation o v).1 = g) ∨ ∃ l s r, g.origin = .stagedCreate l s r ∧ r.oid = o ∧
        (g.dropStagedRelation o v).1 = ⟨g.base, .stagedCreate l s { r with droppedAt := some v },
            (drop.record v g.transaction).1⟩ := by
  obtain ⟨b, origin, t⟩ := g
  cases origin with
  | published => exact .inl ⟨rfl, rfl⟩
  | stagedCreate l s r =>
    by_cases ho : r.oid = o
    · refine .inr ⟨l, s, r, rfl, ho, ?_⟩
      simp only [dropStagedRelation, ho, ne_eq, not_true_eq_false, if_false, record]
    · refine .inl ⟨?_, ?_⟩
      · simp [ownsStagedRelation, relation?, ho]
      · simp [dropStagedRelation, ho]

lemma view_dropStagedRelation (o v : ℕ) :
    (g.dropStagedRelation o v).1.view = if g.view.owns o then g.view.dropped else g.view := by
  rw [view_owns]
  rcases g.dropStagedRelation_cases o v with
    ⟨ho, hs⟩ | ⟨nestLevel, staged, relation, hori, ho, hd⟩
  · rw [hs, ho, if_neg (by simp)]
  · have hown : g.ownsStagedRelation o = true := by
      simp [ownsStagedRelation, relation?, hori, ho]
    rw [hd, hown, if_pos rfl]
    simp only [view, relation?, GenerationView.dropped, hori, Option.map_some, record_view]
    rfl

end ForeignTableGeneration

/-! ## Laws of the tables -/

namespace ForeignTableState

variable (s : ForeignTableState T B)

lemma view_disposition : s.view.disposition = s.stagedCreateDisposition := by
  simp only [StateView.disposition, view, ForeignTableGeneration.view, stagedCreateDisposition]
  cases s.current.relation? <;> rfl

lemma view_recordBatch (v : ℕ) (w : TxWriteBatch T) :
    (s.recordBatch v w).1.view = s.view.mapCurrent (.written w) := by
  have hl := record_view v s.current.transaction (.batch w)
  simp only [record] at hl
  simp only [recordBatch, view, StateView.mapCurrent, GenerationView.written,
    ForeignTableGeneration.view, hl]
  rfl

variable {v : ℕ} {st : ForeignTableState T B}

lemma Bounded.recordBatch (h : st.Bounded v)
    (w : TxWriteBatch T) : (st.recordBatch v w).1.Bounded v := by
  refine h.setCurrent
    ⟨h.current.created, h.current.dropped, h.current.transaction.record (.batch w), ?_⟩ rfl
  have hv := LogEvent.apply_valid h.current.caches (.recordBatch w)
  simp only [TableTransactionState.recordBatch, TableTransactionState.recordActionMutation,
    TableTransactionState.runMutation, TableTransactionState.recordHistory_actions]
  split_ifs with he
  · exact h.current.caches
  · cases st.current.transaction.actions.exclusiveConflictError with
    | some e => exact h.current.caches
    | none => exact hv

lemma Bounded.dropStagedRelation (h : st.Bounded v) (o : ℕ) :
    (st.dropStagedRelation o v).1.Bounded v := by
  simp only [ForeignTableState.dropStagedRelation]
  rcases st.current.dropStagedRelation_cases o v with
    ⟨-, hs⟩ | ⟨nestLevel, staged, relation, ho, -, hd⟩
  · rw [hs]
    exact h
  · rw [hd]
    have hc := h.current.created
    simp only [createdLevel, ho] at hc
    refine h.setCurrent ⟨hc, ?_, h.current.transaction.record .drop, ?_⟩ ?_
    · intro r' hr d hl
      simp only [relation?, Option.mem_some_iff] at hr
      subst hr
      simp only [Option.mem_some_iff] at hl
      exact hl.ge
    · have hv := LogEvent.apply_valid h.current.caches .stageDrop
      simp only [record, recordDrop, recordActionMutation, runMutation, recordHistory_actions]
      cases st.current.transaction.actions.exclusiveConflictError with
      | some e => exact h.current.caches
      | none => exact hv
    · simp only [createdLevel, ho]

lemma view_undo_recordBatch {t : ℕ} (w : TxWriteBatch T) (hlo : 2 ≤ t) (hh : t ≤ v) :
    ((s.recordBatch v w).1.undo t).map view = (s.undo t).map view := by
  refine view_undo_setCurrent _ rfl ?_
  rw [view_rollback, view_rollback]
  have hl := rollback_record s.current.transaction (.batch w) hlo hh
  simp only [record] at hl
  simp only [hl]
  rfl

lemma view_undo_drop {t : ℕ} (o : ℕ) (ha : s.current.ownsStagedRelation o = true →
      s.current.hasActiveStagedRelation = true) (hlow : 2 ≤ t) (hh : t ≤ v) :
    ((s.dropStagedRelation o v).1.undo t).map view = (s.undo t).map view := by
  simp only [dropStagedRelation]
  rcases s.current.dropStagedRelation_cases o v with
    ⟨-, hs⟩ | ⟨nestLevel, staged, relation, ho, hown, hd⟩
  · rw [hs]
  · have hn : relation.droppedAt = none := by
      have hr : s.current.relation? = some relation := by simp only [relation?, ho]
      simpa [ownsStagedRelation, hasActiveStagedRelation, hr, hown,
        StagedRelation.isActive] using ha
    have hc : (s.current.dropStagedRelation o v).1.createdLevel =
        s.current.createdLevel := by
      simp only [hd, createdLevel, ho]
    refine view_undo_setCurrent _ hc ?_
    have hlo := rollback_record s.current.transaction .drop hlow hh
    have hl : ¬ v < t := by omega
    rw [hd, view_rollback, view_rollback]
    simp only [relation?, ho, hlo, Option.map_some, ownerView, StagedRelation.rollbackToLevel,
      StagedRelation.isActive, hn, Option.filter, hl, decide_false, Bool.false_eq_true, if_false]

end ForeignTableState

namespace Tables

variable (ts : Tables T B) (key : RemoteTableKey)

lemma view_disposition : ts.view.disposition key = ts.stagedCreateDisposition key := by
  simp only [disposition, view, stagedCreateDisposition, map_map,
    comp_def, ForeignTableState.view_disposition]

lemma view_ownerOf (o : ℕ) : ts.view.ownerOf o = (ts.ownerOf o).map fun e => (e.1, e.2.view) := by
  have ho (s : ForeignTableState T B) : s.view.current.owns o =
      s.current.ownsStagedRelation o := s.current.view_owns o
  simp only [TablesView.ownerOf, view, ownerOf, List.find?_map, comp_def, ho]

lemma view_insertStaged (o v : ℕ) (s : StagedTableCreate B) :
    (ts.insertStaged key o v s).view = if ts.view.any fun e => e.1 == key then
      modifyEntry key (·.replaced (.staged o s)) ts.view
      else ts.view ++ [(key, ⟨.staged o s, []⟩)] := by
  have ha : (ts.view.any fun e => e.1 == key) = ts.any fun e => e.1 == key := by
    simp [view, any_map, comp_def]
  rw [ha, insertStaged]
  split_ifs with ho
  · exact view_modifyEntry key ts fun e _ _ => rfl
  · simp only [view, map_append, map_cons, map_nil]
    rfl

lemma act_view (v : ℕ) (op : Operation T B) (ts : Tables T B) :
    (op.act v ts).view = op.apply ts.view := by
  cases op with
  | create key r s =>
    simp only [Operation.act, Operation.apply, create, view_disposition]
    split_ifs with hadm
    · rw [view_insertStaged, if_pos ‹_›]
    · rw [view_insertStaged, if_neg ‹_›]
    · rfl
  | drop r =>
    simp only [Operation.act, Operation.apply, TablesView.drop, view_ownerOf, dropStagedRelation]
    cases ts.ownerOf r with
    | none => rfl
    | some o =>
      dsimp only [Option.map_some]
      refine view_modifyEntry o.1 ts fun e _ _ => ?_
      simp only [ForeignTableState.dropStagedRelation, ForeignTableState.view,
        StateView.mapCurrent, view_dropStagedRelation]
      rfl
  | batch key w =>
    simp only [Operation.act, Operation.apply, write, stageBatch]
    cases hf : ts.find? fun e => e.1 == key with
    | none =>
      have ha : ∀ e ∈ ts.view, e.1 ≠ key := by
        intro e he
        obtain ⟨l, ho, rfl⟩ := mem_map.mp he
        simpa using List.find?_eq_none.mp hf l ho
      rw [modifyEntry_of_absent _ ha]
    | some f =>
      dsimp only
      refine view_modifyEntry key ts fun e _ _ => ?_
      exact e.2.view_recordBatch v w

def Bounded (level : ℕ) (tables : Tables T B) : Prop := ∀ entry ∈ tables, entry.2.Bounded level

variable {l : ℕ} {tables : Tables T B} {f : ForeignTableState T B → ForeignTableState T B}

lemma Bounded.modify (h : tables.Bounded l) (key : RemoteTableKey)
    (hf : ∀ st : ForeignTableState T B, st.Bounded l → (f st).Bounded l) :
    Bounded l (modifyEntry key f tables) := by
  intro e he
  obtain ⟨o, ho, -, ⟨-, hn⟩ | ⟨-, hn⟩⟩ := mem_modifyEntry he
  · rw [hn]
    exact hf o.2 (h o ho)
  · rw [hn]
    exact h o ho

lemma Bounded.insertStaged (h : tables.Bounded l) (key : RemoteTableKey) (o : ℕ)
    (s : StagedTableCreate B) : Bounded l (tables.insertStaged key o l s) := by
  unfold Tables.insertStaged
  split_ifs with ho
  · exact h.modify key fun st hs => hs.replace o s
  · refine forall_mem_append.mpr ⟨h, ?_⟩
    intro e he
    rw [mem_singleton] at he
    rw [he]
    exact ForeignTableState.bounded_staged o l s

lemma Bounded.act (h : tables.Bounded l) (op : Operation T B) : Bounded l (op.act l tables) := by
  cases op with
  | create key r s =>
    simp only [Operation.act]
    split_ifs with ha
    · exact h.insertStaged key r s
    · exact h
  | drop r =>
    simp only [Operation.act, dropStagedRelation]
    cases tables.ownerOf r with
    | none => exact h
    | some o => exact h.modify o.1 fun st hs => hs.dropStagedRelation r
  | batch key w =>
    simp only [Operation.act, stageBatch]
    cases tables.find? fun e => e.1 == key with
    | none => exact h
    | some f => exact h.modify key fun st hs => hs.recordBatch w

/-! ### Rolling back -/

/-- What an abort leaves of an entry. -/
def undone (target : ℕ) (entry : RemoteTableKey × ForeignTableState T B) :
    Option (RemoteTableKey × ForeignTableState T B) :=
  (entry.2.undo target).map (Prod.mk entry.1)

lemma rollback_eq (t : ℕ) : ts.rollbackToLevel t = ts.filterMap (undone t) := by
  induction ts with
  | nil => rfl
  | cons e r ih =>
    simp only [rollbackToLevel] at ih ⊢
    cases hr : e.2.stagedAtOrAfter t with
    | true | false => simp [undone, ForeignTableState.undo, hr, ih]

/-- What an abort shows of an entry. -/
def undoneView (target : ℕ) (entry : RemoteTableKey × ForeignTableState T B) :
    Option (RemoteTableKey × StateView T B) :=
  ((entry.2.undo target).map ForeignTableState.view).map (Prod.mk entry.1)

lemma view_rollback (t : ℕ) : (ts.rollbackToLevel t).view = ts.filterMap (undoneView t) := by
  rw [rollback_eq, view, map_filterMap]
  refine filterMap_congr fun e _ => ?_
  simp only [undone, undoneView, Option.map_map, comp_def]

variable {t : ℕ}

lemma view_rollback_modify (hf : ∀ e ∈ tables, e.1 = key →
      ((f e.2).undo t).map ForeignTableState.view = (e.2.undo t).map ForeignTableState.view) :
    (rollbackToLevel (modifyEntry key f tables) t).view = (tables.rollbackToLevel t).view := by
  rw [view_rollback, view_rollback, modifyEntry, filterMap_map]
  refine filterMap_congr fun e he => ?_
  simp only [comp_apply]
  by_cases hk : e.1 = key
  · simp only [if_pos hk, undoneView, hf e he hk]
  · simp only [if_neg hk]

lemma view_rollback_insert (o : ℕ) (s : StagedTableCreate B) (hh : t ≤ l) :
    ((ts.insertStaged key o l s).rollbackToLevel t).view = (ts.rollbackToLevel t).view := by
  unfold insertStaged
  split_ifs with ho
  · refine view_rollback_modify key fun e _ _ => ?_
    rw [ForeignTableState.undo_replace o s hh]
  · rw [view_rollback, view_rollback]
    simp [undoneView, ForeignTableState.undo_staged o s hh]

lemma view_rollback_act (op : Operation T B) (ts : Tables T B)
    (ha : op.Admitted ts.view) (hl : 2 ≤ t) (hh : t ≤ l) :
    ((op.act l ts).rollbackToLevel t).view = (ts.rollbackToLevel t).view := by
  cases op with
  | create key r s =>
    simp only [Operation.act]
    split_ifs with hadm
    · exact view_rollback_insert ts key r s hh
    · rfl
  | drop r =>
    simp only [Operation.act, dropStagedRelation]
    cases ts.ownerOf r with
    | none => rfl
    | some o =>
      dsimp only
      refine view_rollback_modify o.1 fun e he _ => ?_
      refine ForeignTableState.view_undo_drop e.2 r (fun ho => ?_) hl hh
      have hac := ha (e.1, e.2.view) (mem_map_of_mem he)
      rw [← view_isActive]
      exact hac (by rw [← ho]; exact e.2.current.view_owns r)
  | batch key w =>
    simp only [Operation.act, stageBatch]
    cases ts.find? fun e => e.1 == key with
    | none => rfl
    | some f =>
      dsimp only
      refine view_rollback_modify key fun e _ _ => ?_
      exact ForeignTableState.view_undo_recordBatch e.2 w hl hh

lemma view_rollback_above (h : tables.Bounded l) (hlt : l < t) :
    (tables.rollbackToLevel t).view = tables.view := by
  rw [view_rollback, view, ← filterMap_eq_map]
  refine filterMap_congr fun e he => ?_
  simp only [undoneView, ForeignTableState.view_undo_above (h e he) hlt, Option.map_some,
    comp_apply]

lemma Bounded.rollback (h : tables.Bounded (l + 1)) :
    Bounded l (tables.rollbackToLevel (l + 1)) := by
  intro e he
  rw [rollback_eq, mem_filterMap] at he
  obtain ⟨o, ho, hu⟩ := he
  obtain ⟨s, hs, rfl⟩ := Option.map_eq_some_iff.mp hu
  exact (h o ho).undo hs

lemma view_rollback_rollback (hle : t ≤ l) :
    ((ts.rollbackToLevel l).rollbackToLevel t).view = (ts.rollbackToLevel t).view := by
  rw [view_rollback, view_rollback, rollback_eq, filterMap_filterMap]
  refine filterMap_congr fun e _ => ?_
  have he := ForeignTableState.view_undo_undo e.2 hle
  simp only [undone, undoneView, ← he]
  cases e.2.undo l with
  | none => rfl
  | some s => rfl

lemma view_promote (v : ℕ) : (ts.promoteToLevel v).view = ts.view := by
  simp [view, promoteToLevel, comp_def]

lemma Bounded.promote (h : tables.Bounded (l + 1)) : Bounded l (tables.promoteToLevel (l + 1)) := by
  intro e he
  obtain ⟨o, ho, rfl⟩ := mem_map.mp he
  exact (h o ho).promote

lemma view_rollback_promote (h : tables.Bounded l) (hl : 2 ≤ t) (hlt : t < l) :
    ((tables.promoteToLevel l).rollbackToLevel t).view = (tables.rollbackToLevel t).view := by
  rw [view_rollback, view_rollback, promoteToLevel, filterMap_map]
  refine filterMap_congr fun e he => ?_
  simp only [comp_apply, undoneView, ForeignTableState.view_undo_promote (h e he) hl hlt]

end Tables

/-- The tables as a leveled component. A second drop of a relation is left out of its
operations. -/
def stagedTables (T : Provider) (B : Type) :
    Component (Tables T B) (TablesView T B) (Operation T B) where
  view := view
  apply op view := if op.Admitted view then op.apply view else view
  act level op tables := if op.Admitted tables.view then op.act level tables else tables
  undo level tables := tables.rollbackToLevel level
  promote level tables := tables.promoteToLevel level
  inv := Tables.Bounded
  act_view level op tables _ := by
    split_ifs with hadmitted
    · exact act_view level op tables
    · rfl
  act_inv level op tables _ h := by
    split_ifs with hadmitted
    · exact h.act op
    · exact h
  undo_act level op tables target _ hlow hhigh := by
    split_ifs with hadmitted
    · exact view_rollback_act op tables hadmitted hlow hhigh
    · rfl
  undo_above _ _ _ h hlt := view_rollback_above h hlt
  start_inv _ _ h := fun entry hentry => (h entry hentry).mono (Nat.le_succ _)
  undo_inv _ _ h := h.rollback
  undo_undo tables _ _ hle := view_rollback_rollback tables hle
  promote_view level tables := tables.view_promote level
  promote_inv _ _ _ h := h.promote
  undo_promote _ _ _ h hlow hlt := view_rollback_promote h hlow hlt

end LagoDB.StagedCreates
