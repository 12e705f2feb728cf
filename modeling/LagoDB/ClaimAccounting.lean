import LagoDB.MutationRuns

/-!
# Callbacks account for claims

Along any run the callbacks that were the first to touch their rows account for the
live claims, and every state that has lost no owner to a rollback holds exactly the
bitmaps of the files it touched, each once. A state that has lost one and claims no more
keeps what it has.
-/
namespace LagoDB.RowClaims

open ActionLog List RelationRowRegistry

variable {ρ : Type} {n : ρ → Except IcebergError Unit}

/-! ## Live claims and callbacks -/

variable (tb : ClaimTable) (t : ModifyStateId)

lemma ClaimTable.take_taken (i file : IcebergFileId) (p row : ℕ) (c : CommandId) :
    (tb.take t i p c).taken file row =
      if file = i ∧ row = p then some ⟨t, c⟩ else tb.taken file row :=
  rfl

open ClaimTable

lemma ClaimTable.claim_cases (i : IcebergFileId) (p : ℕ) (c : CommandId) (v : ℤ) :
    ((tb.claim t i p c v).1 = .ok .firstTouch ∧ tb.taken i p = none ∧
      (tb.claim t i p c v).2.taken = (tb.take t i p c).taken) ∨
    ((tb.claim t i p c v).1 ≠ .ok .firstTouch ∧ (tb.claim t i p c v).2 = tb) := by
  rw [claim]
  split_ifs with hk
  · cases ht : tb.taken i p with
    | some l =>
      simp only
      split_ifs <;> exact .inr ⟨by simp, rfl⟩
    | none =>
      cases tb.touched t i with
      | none => exact .inl ⟨rfl, rfl, rfl⟩
      | some o =>
        simp only
        split_ifs
        · exact .inr ⟨by simp, rfl⟩
        · exact .inl ⟨rfl, trivial, rfl⟩
  · exact .inr ⟨by simp, rfl⟩

/-- A callback of the session that was the first to touch the row. -/
def Run.Claimed (run : Run ρ) (session : ℕ) (target : IcebergFileId × ℕ) (command : CommandId) :
    Prop :=
  ∃ callback ∈ run.callbacks, callback.session = session ∧ callback.target = target ∧
    callback.command = command ∧ callback.Took

/-- The session's state has lost no owner to a rollback. -/
def Run.Intact (run : Run ρ) (session : ℕ) (state : ModifyStateId) : Prop :=
  run.stateOf session = some state ∧ state ∉ run.cut

/-- The second callback takes the row of the first only after a rollback has taken an owner
from the first one's state, and the same state takes it again only by a late claim. -/
def Run.Retaken (run : Run ρ) (first second : Callback ρ) : Prop :=
  first.Took → second.Took → first.target = second.target →
    ∀ state, run.stateOf first.session = some state →
      state ∈ run.cut ∧ (second.session = first.session → state ∈ run.late)

/-- The callbacks account for the live claims. -/
structure Accounted (encode : ρ → Except IcebergError Unit) (run : Run ρ) : Prop where
  bounded : ∀ callback ∈ run.callbacks, callback.session < run.sessions.length
  claimed : ∀ session state, run.Intact session state → ∀ fileId position command,
    run.Claimed session (fileId, position) command ↔
      run.table.taken fileId position = some ⟨state, command⟩
  single : run.callbacks.Pairwise run.Retaken
  appended : ∀ callback ∈ run.callbacks, callback.appended =
    (callback.claim.map (callback.kind.successor encode)).getD []

open Run

lemma Accounted.new : Accounted n (Run.new : Run ρ) where
  bounded := by simp [Run.new]
  claimed e state hi := by
    simp [Run.new, Run.Intact, stateOf, deletesOf] at hi
  single := List.Pairwise.nil
  appended := by simp [Run.new]

variable {run run' : Run ρ}

lemma Run.Retaken.mono {f g : Callback ρ} (h : run.Retaken f g)
    (hs : run'.stateOf f.session = run.stateOf f.session) (hc : run.cut ⊆ run'.cut)
    (hl : run.late ⊆ run'.late) : run'.Retaken f g := by
  intro hf hg ht t hst
  obtain ⟨hcu, hla⟩ := h hf hg ht t (hs ▸ hst)
  exact ⟨hc hcu, fun he => hl (hla he)⟩

lemma Accounted.of_same (h : Accounted n run) (hse : run.sessions.length ≤ run'.sessions.length)
    (hc : run'.callbacks = run.callbacks) (hs : run'.stateOf = run.stateOf)
    (hcu : run.cut ⊆ run'.cut) (hl : run.late ⊆ run'.late)
    (ht : ∀ e t, run'.Intact e t → ∀ i p c,
      run'.table.taken i p = some ⟨t, c⟩ ↔ run.table.taken i p = some ⟨t, c⟩) :
    Accounted n run' where
  bounded := by
    rw [hc]
    exact fun b hca => lt_of_lt_of_le (h.bounded b hca) hse
  claimed e t hi i p c := by
    rw [ht e t hi, Run.Claimed, hc]
    exact h.claimed e t ⟨hs ▸ hi.1, fun hn => hi.2 (hcu hn)⟩ i p c
  single := by
    rw [hc]
    exact h.single.imp fun hr => hr.mono (congrFun hs _) hcu hl
  appended := by
    rw [hc]
    exact h.appended

variable {b : Callback ρ}

lemma claimed_append (h : run'.callbacks = run.callbacks ++ [b]) (e : ℕ) (t : IcebergFileId × ℕ)
    (c : CommandId) :
    run'.Claimed e t c ↔ run.Claimed e t c ∨ (b.session = e ∧ b.target = t ∧ b.command = c ∧
      b.Took) := by
  simp only [Run.Claimed, h, mem_append, mem_singleton, or_and_right, exists_or, exists_eq_left]

/-- The run went on by one callback, with the states as they were. -/
structure Called (encode : ρ → Except IcebergError Unit) (run run' : Run ρ)
    (callback : Callback ρ) : Prop where
  sessions : run'.sessions.length = run.sessions.length
  callbacks : run'.callbacks = run.callbacks ++ [callback]
  states : ∀ session, run'.stateOf session = run.stateOf session
  cut : run'.cut = run.cut
  late : run.late ⊆ run'.late
  session : callback.session < run.sessions.length
  appended : callback.appended = (callback.claim.map (callback.kind.successor encode)).getD []

lemma Accounted.extend (h : Accounted n run) (hc : Called n run run' b)
    (hcl : ∀ e t, run.Intact e t → ∀ i p c, run'.Claimed e (i, p) c ↔
      run'.table.taken i p = some ⟨t, c⟩) (hsi : ∀ f ∈ run.callbacks, run'.Retaken f b) :
    Accounted n run' := by
  have hi (e : ℕ) (t : ModifyStateId) : run'.Intact e t ↔ run.Intact e t := by
    rw [Run.Intact, Run.Intact, hc.states, hc.cut]
  refine ⟨?_, fun e t hs => ?_, ?_, ?_⟩
  · rw [hc.callbacks, hc.sessions]
    exact forall_mem_append.mpr ⟨h.bounded, by simpa using hc.session⟩
  · exact hcl e t ((hi e t).mp hs)
  · rw [hc.callbacks, pairwise_append]
    refine ⟨h.single.imp fun hr => hr.mono (hc.states _) hc.cut.ge hc.late,
      pairwise_singleton _ _, fun f hf g hg => ?_⟩
    rw [mem_singleton.mp hg]
    exact hsi f hf
  · rw [hc.callbacks]
    exact forall_mem_append.mpr ⟨h.appended, by simpa using hc.appended⟩

lemma Accounted.idle (h : Accounted n run) (hc : Called n run run' b)
    (ht : run'.table = run.table) (hi : ¬b.Took) : Accounted n run' := by
  refine h.extend hc ?_ fun _ _ _ hto => absurd hto hi
  intro e state hs i p c
  rw [claimed_append hc.callbacks, ht, ← h.claimed e state hs]
  exact or_iff_left fun hn => hi hn.2.2.2

variable {e p : ℕ} {own : RowDeleteState} {i : IcebergFileId} {c : CommandId} {v : ℤ}
  {r : Except IcebergError RowMutationClaim} {r' : RelationRowRegistry}
  (hcla : ClaimedRun n run run' e own i p c r r' b)
  (hclaim : ClaimStep run.registry own.modifyStateId i p c v r r')

include hcla in
lemma stateOf_claimed (o : ℕ) : run'.stateOf o = run.stateOf o := by
  rw [stateOf, hcla.deletes']
  split_ifs with ho
  · rw [ho, stateOf, hcla.deletes, Option.map_some, Option.map_some, handed_modifyStateId]
  · rfl

variable {state : ModifyStateId}

lemma Accounted.take (h : Accounted n run) (hso : Sound run) (hca : Called n run run' b)
    (hta : run'.table.taken = (run.table.take state i p c).taken)
    (hst : run.stateOf b.session = some state) (ht : b.target = (i, p)) (hc : b.command = c)
    (hto : b.Took) (hfr : run.table.taken i p = none) (hl : state ∈ run.cut → state ∈ run'.late) :
    Accounted n run' := by
  -- No intact session has claimed the row before.
  have hu (e : ℕ) (o : ModifyStateId) (ho : run.Intact e o)
      (found : CommandId) : ¬run.Claimed e (i, p) found := by
    rw [h.claimed e o ho, hfr]
    exact Option.some_ne_none _ ∘ Eq.symm
  refine h.extend hca ?_ ?_
  · intro e o ho file row found
    rw [claimed_append hca.callbacks, hta, take_taken]
    by_cases hs : file = i ∧ row = p
    · obtain ⟨rfl, rfl⟩ := hs
      rw [or_iff_right (hu e o ho found), if_pos ⟨rfl, rfl⟩]
      constructor
      · rintro ⟨rfl, -, rfl, -⟩
        rw [Option.some.inj (hst.symm.trans ho.1), hc]
      · intro hl
        obtain ⟨rfl, rfl⟩ := LiveClaim.mk.inj (Option.some.inj hl)
        exact ⟨hso.distinct _ _ _ hst ho.1, ht, hc, hto⟩
    · rw [if_neg hs, ← h.claimed e o ho file row found]
      refine or_iff_left fun hn => hs ?_
      rw [ht] at hn
      exact Prod.mk.inj hn.2.1.symm
  · intro f hf hf' _ hs t hft
    rw [hca.states] at hft
    have hcu : t ∈ run.cut := by
      by_contra hn
      exact hu f.session t ⟨hft, hn⟩ f.command ⟨f, hf, rfl, hs.trans ht, rfl, hf'⟩
    refine ⟨hca.cut ▸ hcu, fun he => ?_⟩
    rw [he, hft] at hst
    cases hst
    exact hl hcu

lemma Accounted.claim (h : Accounted n run) (hs : Sound run)
    (hcl : ClaimedRun n run run' e own i p c (run.registry.claim own.modifyStateId i p c v).1
      (run.registry.claim own.modifyStateId i p c v).2 b)
    (ht : run'.table = (run.table.claim own.modifyStateId i p c v).2) : Accounted n run' := by
  have ho := (hs.refines.claim hs.consistent own.modifyStateId i p c v).1
  have hclaim := hcl.claim
  have ha := hcl.appended
  rw [ho] at hclaim ha
  have hst : run.stateOf b.session = some own.modifyStateId := by
    rw [hcl.session, stateOf, hcl.deletes, Option.map_some]
  have hc : Called n run run' b := by
    refine ⟨hcl.sessions, hcl.callbacks, stateOf_claimed hcl, hcl.cut, ?_, ?_, ?_⟩
    · rw [hcl.late]
      exact Set.subset_union_left
    · by_contra hl
      rw [stateOf, deletesOf, List.getElem?_eq_none (not_lt.mp hl)] at hst
      cases hst
    · rw [ha, hclaim, Option.map_some, Option.getD_some]
  rcases run.table.claim_cases own.modifyStateId i p c v with
    ⟨hto, hf, hta⟩ | ⟨hi, hsa⟩
  · refine h.take hs hc ?_ hst hcl.target hcl.command ?_ hf fun hcu => ?_
    · rw [ht, hta]
    · rw [Callback.Took, hclaim, hto]
    · rw [hcl.late]
      exact .inr ⟨rfl, hcu⟩
  · refine h.idle hc (ht.trans hsa) fun hto => hi ?_
    exact Option.some.inj (hclaim.symm.trans hto)

lemma ClaimTable.register_taken (path : String) : (tb.register path).taken = tb.taken := by
  rw [register]
  split_ifs <;> rfl

lemma ClaimTable.rollback_taken {tb : ClaimTable} {t : ℤ}
    (h : ¬tb.undone t state i = true) (p : ℕ) (c : CommandId) :
    (tb.rollback t).taken i p = some ⟨state, c⟩ ↔ tb.taken i p = some ⟨state, c⟩ := by
  simp only [rollback]
  cases tb.taken i p with
  | none => exact Iff.rfl
  | some l =>
    simp only
    split_ifs with hu
    · refine iff_of_false (by simp) fun hl => h ?_
      rwa [Option.some.inj hl] at hu
    · exact Iff.rfl

variable {k : MutationSinks ρ}

lemma Accounted.opened (h : Accounted n run) (hso : Sound run)
    (hsi : k.rowDeletes = some ⟨run.registry.nextModifyStateId, []⟩)
    (hse : run'.sessions = run.sessions ++ [k]) (hca : run'.callbacks = run.callbacks)
    (hcu : run'.cut = run.cut) (hl : run'.late = run.late) (hta : run'.table = run.table) :
    Accounted n run' := by
  have hst (e : ℕ) : run'.stateOf e =
      if e = run.sessions.length then some run.registry.nextModifyStateId else run.stateOf e := by
    rw [stateOf, deletesOf_append hse, hsi]
    split_ifs <;> rfl
  refine ⟨?_, fun e state hs i p c => ?_, ?_, ?_⟩
  · rw [hca, hse, length_append]
    exact fun b hc => Nat.lt_add_right _ (h.bounded b hc)
  · rw [Run.Claimed, hca, hta]
    rw [Run.Intact, hst, hcu] at hs
    split_ifs at hs with hn
    · refine iff_of_false ?_ fun hl => ?_
      · rintro ⟨b, hc, hses, -⟩
        exact absurd (h.bounded b hc) (by omega)
      · obtain ⟨w, how, -, hl⟩ := (hso.refines.taken i p _).mp hl
        have hk := hso.consistent.known i w how
        rw [(LiveClaim.mk.inj hl).1, ← Option.some.inj hs.1] at hk
        exact lt_irrefl _ hk
    · exact h.claimed e state hs i p c
  · rw [hca]
    refine h.single.imp_of_mem fun hf _ hr => hr.mono ?_ hcu.ge hl.ge
    rw [hst, if_neg (Nat.ne_of_lt (h.bounded _ hf))]
  · rw [hca]
    exact h.appended

lemma Accounted.step (h : Accounted n run) (hso : Sound run)
    (hst : RunStep n run run') : Accounted n run' := by
  cases hst with
  | same => exact h
  | registered path =>
    refine h.of_same le_rfl rfl rfl subset_rfl subset_rfl fun e state _ i p c => ?_
    rw [register_taken]
  | promoted f =>
    exact h.of_same le_rfl rfl rfl subset_rfl subset_rfl fun _ _ _ _ _ _ => Iff.rfl
  | rolledBack t =>
    refine h.of_same le_rfl rfl rfl Set.subset_union_left subset_rfl fun e state hs i p c => ?_
    exact rollback_taken (fun hu => hs.2 (.inr ⟨i, hu⟩)) p c
  | sessions sessions hl hd =>
    exact h.of_same hl rfl (stateOf_congr hd) subset_rfl subset_rfl fun _ _ _ _ _ _ => Iff.rfl
  | begun s hsi => exact h.opened hso hsi rfl rfl rfl rfl rfl
  | refused b hse hclaim ha =>
    refine h.idle ⟨rfl, rfl, fun _ => rfl, rfl, subset_rfl, hse, ?_⟩ rfl ?_
    · rw [ha, hclaim, Option.map_none, Option.getD_none]
    · simp [Callback.Took, hclaim]
  | claimed _ _ _ _ _ _ _ _ hcla ht => exact h.claim hso hcla ht

/-! ## Bitmaps handed out -/

/-- The state is an owner of the file, with this bitmap. -/
def RelationRowRegistry.Owns (registry : RelationRowRegistry) (state : ModifyStateId)
    (fileId : IcebergFileId) (positions : OwnedRowPositions) : Prop :=
  ∃ owner ∈ registry.ownersOf fileId, owner.modifyStateId = state ∧ owner.positions = positions

/-- Intact states hold the bitmaps of the files they touched, each once. The bitmaps that
states hold exist, start with a row and are no other state's. -/
structure Handed (run : Run ρ) : Prop where
  owned : ∀ session own, run.deletesOf session = some own → own.modifyStateId ∉ run.cut →
    ∀ fileId positions, (fileId, positions) ∈ own.positionDeletes ↔
      run.registry.Owns own.modifyStateId fileId positions
  once : ∀ session own, run.deletesOf session = some own → own.modifyStateId ∉ run.cut →
    (own.positionDeletes.map Prod.fst).Nodup
  rows : ∀ rows ∈ run.registry.bitmaps, rows.Nonempty
  handles : ∀ session own, run.deletesOf session = some own → ∀ handed ∈ own.positionDeletes,
    handed.2 < run.registry.bitmaps.length
  apart : ∀ session own, run.deletesOf session = some own → ∀ handed ∈ own.positionDeletes,
    ∀ state fileId, run.registry.Owns state fileId handed.2 → state = own.modifyStateId

lemma Handed.new : Handed (Run.new : Run ρ) := by
  constructor <;> simp [Run.new, RelationRowRegistry.new, deletesOf]

lemma Handed.of_same (h : Handed run) (hd : run'.deletesOf = run.deletesOf)
    (hc : run.cut ⊆ run'.cut) (hl : run.registry.bitmaps.length ≤ run'.registry.bitmaps.length)
    (hr : ∀ rs ∈ run'.registry.bitmaps, rs.Nonempty)
    (ho : ∀ t i ps, run'.registry.Owns t i ps → run.registry.Owns t i ps)
    (hk : ∀ t, t ∉ run'.cut → ∀ i ps, run.registry.Owns t i ps → run'.registry.Owns t i ps) :
    Handed run' := by
  refine ⟨?_, ?_, hr, ?_, ?_⟩
  all_goals
    rw [hd]
    intro e own he
  · intro hi i ps
    rw [h.owned e own he (fun hn => hi (hc hn)) i ps]
    exact ⟨hk _ hi i ps, ho _ i ps⟩
  · exact fun hi => h.once e own he fun hn => hi (hc hn)
  · exact fun d hm => lt_of_lt_of_le (h.handles e own he d hm) hl
  · exact fun d hm t i hp => h.apart e own he d hm t i (ho t i d.2 hp)

variable (g : RelationRowRegistry)

lemma ownersOf_registerFile (path : String) (i : IcebergFileId) :
    (g.registerFile path).2.ownersOf i = g.ownersOf i := by
  obtain ⟨r, n, hr, hs⟩ := registerFile_step g path
  rw [hr]
  cases hs with
  | interned | full => rfl
  | added => exact ownersOf_added path _ i

lemma bitmaps_registerFile (path : String) : (g.registerFile path).2.bitmaps = g.bitmaps := by
  obtain ⟨r, next, hr, hs⟩ := registerFile_step g path
  rw [hr]
  cases hs <;> rfl

lemma owns_promoteToLevel (f : ℤ) (t : ModifyStateId) (i : IcebergFileId) (ps : OwnedRowPositions) :
    (g.promoteToLevel f).Owns t i ps ↔ g.Owns t i ps := by
  simp only [RelationRowRegistry.Owns, ownersOf_promoteToLevel, mem_map,
    exists_exists_and_eq_and, MutationOwner.promote_fields]

variable {reg : RelationRowRegistry}

lemma owns_rollbackToLevel {tb : ClaimTable} (h : Refines reg tb) {t : ℤ}
    (hk : ¬tb.undone t state i = true) (ps : OwnedRowPositions) :
    (reg.rollbackToLevel t).Owns state i ps ↔ reg.Owns state i ps := by
  simp only [RelationRowRegistry.Owns, ownersOf_rollbackToLevel, mem_filter, decide_eq_true_eq]
  constructor
  · rintro ⟨o, ⟨ho, -⟩, hs⟩
    exact ⟨o, ho, hs⟩
  · rintro ⟨o, ho, rfl, hp⟩
    rw [h.undone_iff ho, not_le] at hk
    exact ⟨o, ⟨ho, hk⟩, rfl, hp⟩

lemma Handed.opened (h : Handed run) (hso : Sound run)
    (hsi : k.rowDeletes = some ⟨run.registry.nextModifyStateId, []⟩)
    (hs : run'.sessions = run.sessions ++ [k]) (hc : run'.cut = run.cut)
    (hb : run'.registry.bitmaps = run.registry.bitmaps)
    (how : run'.registry.ownersOf = run.registry.ownersOf) : Handed run' := by
  refine ⟨fun e own ho hi i p => ?_, fun e own ho hi => ?_, hb ▸ h.rows, fun e own ho d hm => ?_,
    fun e own ho d hm => ?_⟩
  all_goals
    rw [deletesOf_append hs, hsi] at ho
    split_ifs at ho
  · cases ho
    refine iff_of_false not_mem_nil ?_
    rintro ⟨o, howner, hst, -⟩
    rw [how] at howner
    exact absurd (hso.consistent.known i o howner) (by rw [hst]; exact lt_irrefl _)
  · rw [RelationRowRegistry.Owns, how]
    exact h.owned e own ho (hc ▸ hi) i p
  · cases ho
    exact nodup_nil
  · exact h.once e own ho (hc ▸ hi)
  · cases ho
    cases hm
  · rw [hb]
    exact h.handles e own ho d hm
  · cases ho
    cases hm
  · simp only [RelationRowRegistry.Owns, how]
    exact h.apart e own ho d hm

include hcla in
lemma deletesOf_keep (hr : own.handed i r = own) : run'.deletesOf = run.deletesOf := by
  funext other
  rw [hcla.deletes', hr]
  split_ifs with ho
  · rw [ho, hcla.deletes]
  · rfl

include hcla in
lemma Handed.keep (h : Handed run) (hr : own.handed i r = own)
    (ho : r'.ownersOf = run.registry.ownersOf)
    (hl : r'.bitmaps.length = run.registry.bitmaps.length)
    (hb : ∀ rs ∈ r'.bitmaps, rs.Nonempty) : Handed run' := by
  have how (t : ModifyStateId) (i : IcebergFileId) (ps : OwnedRowPositions) :
      run'.registry.Owns t i ps ↔ run.registry.Owns t i ps := by
    rw [hcla.registry, RelationRowRegistry.Owns, ho]
    rfl
  exact h.of_same (deletesOf_keep hcla hr) hcla.cut.ge (by rw [hcla.registry, hl])
    (by rwa [hcla.registry]) (fun t i ps => (how t i ps).mp) fun t _ i ps => (how t i ps).mpr

variable {file : RegisteredFile}

lemma owns_pushOwner (h : reg.files[i.raw]? = some file) (t : ModifyStateId) (p : ℕ)
    (c : CommandId) (v : ℤ) (o : ModifyStateId) (f : IcebergFileId) (ps : OwnedRowPositions) :
    (reg.pushOwner file i t p c v).Owns o f ps ↔ reg.Owns o f ps ∨
      (f = i ∧ t = o ∧ reg.bitmaps.length = ps) := by
  simp only [RelationRowRegistry.Owns, ownersOf_pushOwner h]
  split_ifs with hf
  · subst hf
    simp only [mem_append, mem_singleton, or_and_right, exists_or, exists_eq_left, true_and]
  · simp [hf]

lemma Handed.not_handed (h : Handed run) (hd : run.deletesOf e = some own)
    (hc : own.modifyStateId ∉ run.cut)
    (hne : ∀ w ∈ run.registry.ownersOf i, w.modifyStateId ≠ own.modifyStateId) :
    i ∉ own.positionDeletes.map Prod.fst := by
  intro hm
  obtain ⟨⟨l, ps⟩, hl, rfl⟩ := mem_map.mp hm
  obtain ⟨w, how, hst, -⟩ := (h.owned e own hd hc l ps).mp hl
  exact hne w how hst

lemma Handed.first (h : Handed run) (hs : Sound run) (hcl : ClaimedRun n run run' e own i p c
      (.ok (.firstTouch (some run.registry.bitmaps.length)))
      (run.registry.pushOwner file i own.modifyStateId p c v) b)
    (hfi : run.registry.files[i.raw]? = some file)
    (hne : ∀ w ∈ run.registry.ownersOf i, w.modifyStateId ≠ own.modifyStateId) : Handed run' := by
  have hle : run'.registry.bitmaps.length = run.registry.bitmaps.length + 1 := by
    rw [hcl.registry, pushOwner, length_append, length_singleton]
  refine ⟨fun o f hf hi of ps => ?_, fun o f hf hi => ?_, ?_, fun o f hf d hm => ?_,
    fun o f hf d hm t of hw => ?_⟩
  all_goals try
    rw [hcl.deletes'] at hf
    split_ifs at hf with ho
  · cases hf
    rw [hcl.cut] at hi
    rw [hcl.registry, owns_pushOwner hfi, handed_modifyStateId,
      ← h.owned e own hcl.deletes hi of ps]
    simp only [RowDeleteState.handed, mem_append, mem_singleton, Prod.mk.injEq, true_and, eq_comm]
  · rw [hcl.cut] at hi
    rw [hcl.registry, owns_pushOwner hfi, h.owned o f hf hi of ps]
    refine (or_iff_left fun hn => ho ?_).symm
    refine hs.distinct o e own.modifyStateId ?_ ?_
    · rw [stateOf, hf, Option.map_some, hn.2.1]
    · rw [stateOf, hcl.deletes, Option.map_some]
  · cases hf
    rw [hcl.cut] at hi
    have hm := h.not_handed hcl.deletes hi hne
    rw [RowDeleteState.handed, map_append, nodup_append]
    refine ⟨h.once e own hcl.deletes hi, nodup_singleton _, ?_⟩
    intro l hl a ha
    obtain rfl := mem_singleton.mp ha
    rintro rfl
    exact hm hl
  · exact h.once o f hf (hcl.cut ▸ hi)
  · rw [hcl.registry]
    exact forall_mem_append.mpr ⟨h.rows, by simp⟩
  · cases hf
    rw [hle]
    rcases mem_append.mp hm with hol | hla
    · exact Nat.lt_succ_of_lt (h.handles e own hcl.deletes d hol)
    · rw [mem_singleton.mp hla]
      exact Nat.lt_succ_self _
  · rw [hle]
    exact Nat.lt_succ_of_lt (h.handles o f hf d hm)
  · cases hf
    rw [hcl.registry, owns_pushOwner hfi] at hw
    rcases hw with hw | ⟨-, rfl, -⟩
    · rcases mem_append.mp hm with hol | hla
      · exact h.apart e own hcl.deletes d hol t of hw
      · rw [mem_singleton.mp hla] at hw
        obtain ⟨w, how, -, hp⟩ := hw
        exact absurd (hs.consistent.handles of w how) (by rw [hp]; exact lt_irrefl _)
    · exact (handed_modifyStateId own i _).symm
  · rw [hcl.registry, owns_pushOwner hfi] at hw
    rcases hw with hw | ⟨-, -, hlen⟩
    · exact h.apart o f hf d hm t of hw
    · exact absurd (h.handles o f hf d hm) (by rw [← hlen]; exact lt_irrefl _)

include hcla hclaim in
lemma Handed.claim (h : Handed run) (hs : Sound run) : Handed run' := by
  cases hclaim with
  | unknown | foreign | otherCommand | again => exact h.keep hcla rfl rfl rfl h.rows
  | joined w =>
    refine h.keep hcla rfl rfl length_set fun rs hr => ?_
    rcases mem_or_eq_of_mem_set hr with ho | rfl
    · exact h.rows rs ho
    · exact Finset.insert_nonempty _ _
  | first file hf hn => exact h.first hs hcla hf hn

lemma Handed.step (h : Handed run) (hs : Sound run) (hst : RunStep n run run') : Handed run' := by
  cases hst with
  | same => exact h
  | registered path =>
    have ho (t : ModifyStateId) (i : IcebergFileId) (ps : OwnedRowPositions) :
        (run.registry.registerFile path).2.Owns t i ps ↔ run.registry.Owns t i ps := by
      rw [RelationRowRegistry.Owns, ownersOf_registerFile]
      rfl
    have hb := bitmaps_registerFile run.registry path
    exact h.of_same rfl subset_rfl (by rw [hb]) (by rw [hb]; exact h.rows)
      (fun t i ps => (ho t i ps).mp) fun t _ i ps => (ho t i ps).mpr
  | promoted f =>
    have ho := owns_promoteToLevel run.registry f
    exact h.of_same rfl subset_rfl le_rfl h.rows (fun t i ps => (ho t i ps).mp)
      fun t _ i ps => (ho t i ps).mpr
  | rolledBack t =>
    refine h.of_same rfl Set.subset_union_left le_rfl h.rows ?_ fun s hi i p => ?_
    · rintro s i ps ⟨o, ho, hp⟩
      rw [Run.step, ownersOf_rollbackToLevel] at ho
      exact ⟨o, (mem_filter.mp ho).1, hp⟩
    · exact (owns_rollbackToLevel hs.refines (fun hu => hi (.inr ⟨i, hu⟩)) p).mpr
  | sessions sessions _ hd =>
    exact h.of_same hd subset_rfl le_rfl h.rows (fun _ _ _ => id) fun _ _ _ _ => id
  | begun s hsi => exact h.opened hs hsi rfl rfl rfl rfl
  | refused => exact h.of_same rfl subset_rfl le_rfl h.rows (fun _ _ _ => id) fun _ _ _ _ => id
  | claimed _ _ _ _ _ _ _ _ hcla =>
    obtain ⟨_, _, hr, hclaim⟩ := claim_step _ _ _ _ _ _
    rw [hr] at hcla
    exact h.claim hcla hclaim hs

/-! ## States that claim no more -/

lemma written_iff (hs : Sound run) (ha : Accounted n run) (hh : Handed run)
    (how : run.deletesOf e = some own) (hi : own.modifyStateId ∉ run.cut)
    (i : IcebergFileId) (p : ℕ) :
    (∃ ps, (i, ps) ∈ own.positionDeletes ∧ p ∈ run.registry.rowsOf ps) ↔
    ∃ c, run.Claimed e (i, p) c := by
  have hst : run.Intact e own.modifyStateId := ⟨by rw [Run.stateOf, how, Option.map_some], hi⟩
  simp only [hh.owned e own how hi, ha.claimed e own.modifyStateId hst, hs.refines.taken]
  constructor
  · rintro ⟨_, ⟨o, ho, hsa, rfl⟩, hr⟩
    exact ⟨o.commandId, o, ho, hr, by rw [MutationOwner.live, hsa]⟩
  · rintro ⟨c, o, ho, hr, hl⟩
    exact ⟨o.positions, ⟨o, ho, congrArg LiveClaim.owner hl, rfl⟩, hr⟩

/-- A state without late claims holds one bitmap a file, and in them the rows it claimed. -/
structure Kept (run : Run ρ) : Prop where
  once : ∀ session own, run.deletesOf session = some own → own.modifyStateId ∉ run.late →
    (own.positionDeletes.map Prod.fst).Nodup
  written : ∀ session own, run.deletesOf session = some own → own.modifyStateId ∉ run.late →
    ∀ fileId position,
      (∃ positions, (fileId, positions) ∈ own.positionDeletes ∧
        position ∈ run.registry.rowsOf positions) ↔
      ∃ command, run.Claimed session (fileId, position) command

lemma Kept.new : Kept (Run.new : Run ρ) := by
  constructor <;> simp [Run.new, deletesOf]

/-- The step concerned no bitmap and no claim of the session. -/
structure Unconcerned (run run' : Run ρ) (session : ℕ) (own : RowDeleteState) : Prop where
  deletes : run.deletesOf session = some own
  late : run.late ⊆ run'.late
  claimed : ∀ target command, run'.Claimed session target command ↔
    run.Claimed session target command
  rows : ∀ handed ∈ own.positionDeletes,
    run'.registry.rowsOf handed.2 = run.registry.rowsOf handed.2

include hcla hclaim in
lemma unconcerned_claim (hs : Sound run) (hh : Handed run) {s : ℕ} {own' : RowDeleteState}
    (hd : run.deletesOf s = some own') (hne : s ≠ e) : Unconcerned run run' s own' := by
  refine ⟨hd, ?_, fun t c => ?_, fun handed hm => ?_⟩
  · rw [hcla.late]
    exact Set.subset_union_left
  · rw [claimed_append hcla.callbacks, hcla.session]
    exact or_iff_left fun hn => hne hn.1.symm
  · rw [hcla.registry]
    cases hclaim with
    | unknown | foreign | otherCommand | again => rfl
    | joined o ho hstate =>
      rw [rowsOf_insertRow (hs.consistent.handles _ o ho), if_neg fun he => hne ?_]
      have hst := hh.apart s own' hd handed hm _ i ⟨o, ho, hstate, he.symm⟩
      refine hs.distinct s e own.modifyStateId ?_ ?_
      · rw [stateOf, hd, Option.map_some, hst]
      · rw [stateOf, hcla.deletes, Option.map_some]
    | first file =>
      rw [rowsOf_pushOwner, if_neg (Nat.ne_of_lt (hh.handles s own' hd handed hm))]

lemma RunStep.unconcerned (hst : RunStep n run run') (hs : Sound run) (ha : Accounted n run)
    (hh : Handed run) {s : ℕ} {own : RowDeleteState} (hd : run'.deletesOf s = some own)
    (hc : own.modifyStateId ∈ run'.cut) (hl : own.modifyStateId ∉ run'.late) :
    Unconcerned run run' s own ∨ own.positionDeletes = [] ∧ ∀ t command,
      ¬run'.Claimed s t command := by
  cases hst with
  | same | rolledBack | promoted =>
    exact .inl ⟨hd, subset_rfl, fun _ _ => Iff.rfl, fun _ _ => rfl⟩
  | registered path =>
    refine .inl ⟨hd, subset_rfl, fun _ _ => Iff.rfl, fun handed _ => ?_⟩
    rw [rowsOf, bitmaps_registerFile]
    rfl
  | sessions sessions _ hs =>
    exact .inl ⟨hs ▸ hd, subset_rfl, fun _ _ => Iff.rfl, fun _ _ => rfl⟩
  | refused c hse hclaim =>
    refine .inl ⟨hd, subset_rfl, fun t command => ?_, fun _ _ => rfl⟩
    rw [claimed_append rfl]
    exact or_iff_left fun hn => by simp [Callback.Took, hclaim] at hn
  | begun ss hsi =>
    rw [deletesOf_append rfl, hsi] at hd
    split_ifs at hd with hnew
    · cases hd
      refine .inr ⟨rfl, ?_⟩
      rintro t command ⟨c, hm, rfl, -⟩
      exact absurd (ha.bounded c hm) (by rw [hnew]; exact lt_irrefl _)
    · exact .inl ⟨hd, subset_rfl, fun _ _ => Iff.rfl, fun _ _ => rfl⟩
  | claimed e _ _ _ _ _ _ _ hcla =>
    obtain ⟨_, _, hr, hclaim⟩ := claim_step _ _ _ _ _ _
    rw [hr] at hcla
    rw [hcla.deletes'] at hd
    split_ifs at hd with he
    · -- a claim of the state itself would be a late one
      cases hd
      rw [handed_modifyStateId, hcla.cut] at hc
      rw [handed_modifyStateId, hcla.late] at hl
      exact absurd (.inr ⟨rfl, hc⟩) hl
    · exact .inl (unconcerned_claim hcla hclaim hs hh hd he)

lemma Kept.step (h : Kept run) (hst : RunStep n run run') (hs : Sound run) (hs' : Sound run')
    (ha : Accounted n run) (ha' : Accounted n run') (hh : Handed run)
    (hh' : Handed run') : Kept run' := by
  refine ⟨fun s own hd hl => ?_, fun s own hd hl f p => ?_⟩
  all_goals
    by_cases hc : own.modifyStateId ∈ run'.cut
    swap
  · exact hh'.once s own hd hc
  · rcases hst.unconcerned hs ha hh hd hc hl with hu | ⟨hn, -⟩
    · exact h.once s own hu.deletes fun hold => hl (hu.late hold)
    · rw [hn]
      exact nodup_nil
  · exact written_iff hs' ha' hh' hd hc f p
  · rcases hst.unconcerned hs ha hh hd hc hl with hu | ⟨hn, hno⟩
    · rw [exists_congr fun _ => hu.claimed _ _,
        ← h.written s own hu.deletes (fun hold => hl (hu.late hold)) f p]
      exact exists_congr fun ps => and_congr_right fun hm => by rw [hu.rows _ hm]
    · simp [hn, hno]

lemma kept_run (n : ρ → Except IcebergError Unit) (es : List (Event ρ)) :
    Accounted n (Run.run n es) ∧ Handed (Run.run n es) ∧ Kept (Run.run n es) := by
  refine (run_induction n (motive := fun run => Accounted n run ∧ Handed run ∧ Kept run)
    ⟨.new, .new, .new⟩ ?_ es).2
  rintro run run' hst hs ⟨ha, hh, hk⟩
  have ha' := ha.step hs hst
  have hh' := hh.step hs hst
  exact ⟨ha', hh', hk.step hst hs (hs.step hst) ha ha' hh hh'⟩

lemma rowsOf_positionDeletes_nonempty (n : ρ → Except IcebergError Unit) (es : List (Event ρ))
    (ho : (Run.run n es).deletesOf e = some own) {d : IcebergFileId × OwnedRowPositions}
    (h : d ∈ own.positionDeletes) : ((Run.run n es).registry.rowsOf d.2).Nonempty := by
  obtain ⟨-, hh, -⟩ := kept_run n es
  have hd := hh.handles e own ho d h
  rw [rowsOf, getD_eq_getElem?_getD, List.getElem?_eq_getElem hd]
  exact hh.rows _ (getElem_mem hd)

end LagoDB.RowClaims
