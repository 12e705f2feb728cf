import LagoDB.VisibleDelta

/-!
# The read caches of a log

The log keeps the combined overlay, the overlay of the last reader and the
largest staged command id; each data epoch keeps its combined delta. Staging a
file action and rolling back drop the three log caches, staging a schema or
property action keeps them, and reads fill them.

A cache is valid if it holds what would be computed now. Every event keeps the
caches valid, so a read never depends on the reads before it.
-/
namespace LagoDB.ActionLog

open ExceptLoop List ValidEpochs TxTableAction

variable {T : Provider}

/-! ## Events -/

/-- What happens to a log between two reads. A rollback may carry any marker;
`warm` is `epoch.delta()` on some of the epochs. -/
inductive LogEvent (T : Provider) where
  | recordBatch (batch : TxWriteBatch T)
  | stageTruncate (guard : T.Guard) (commandId : CommandId)
  | stageSchema (update : T.SchemaUpdate)
  | stageProperties (update : T.PropertyUpdate)
  | stageDrop
  | stageExclusive (action : T.Exclusive)
  | rollback (marker : TxTableActionLogMarker)
  | visibleDelta (cid : CommandId)
  | combinedDelta
  | warm (epochs : ℕ → Bool)

namespace LogEvent

/-- Reads and computations leave the staged actions alone. -/
def isStaging : LogEvent T → Bool
  | .visibleDelta _ | .combinedDelta | .warm _ => false
  | _ => true

def apply (log : TxTableActionLog T) : LogEvent T → TxTableActionLog T
  | .recordBatch batch => log.recordBatch batch
  | .stageTruncate guard commandId => log.stageTruncate guard commandId
  | .stageSchema update => log.stageSchema update
  | .stageProperties update => log.stageProperties update
  | .stageDrop => log.stageDrop
  | .stageExclusive action => (log.stageExclusive action).1
  | .rollback marker => log.truncate marker
  | .visibleDelta cid => (log.visibleDelta cid).2
  | .combinedDelta => log.combinedDelta.2
  | .warm epochs => { log with actions := warmEpochs epochs log.actions }

end LogEvent

def runLog (events : List (LogEvent T)) : TxTableActionLog T :=
  events.foldl LogEvent.apply TxTableActionLog.empty

/-- A table that is dropped or taken by an exclusive action has no overlay. -/
def TxTableAction.isWithdrawal : TxTableAction T → Bool
  | .drop | .exclusive _ => true
  | _ => false

/-! ## Epoch caches -/

lemma maxWriteCommandId_strip (cs : List (TxTableAction T)) :
    maxWriteCommandId (cs.map strip) = maxWriteCommandId cs := by
  unfold maxWriteCommandId
  rw [filterMap_map]
  congr 2
  funext action
  cases action <;> rfl

variable (readCommandId : Option CommandId)

lemma visibleFold_strip (cs : List (TxTableAction T)) (d : T.Delta) :
    visibleFold readCommandId (cs.map strip) d = visibleFold readCommandId cs d := by
  induction cs generalizing d with
  | nil => rfl
  | cons a r ih =>
    cases a with
    | data e => exact congrArg _ (funext ih)
    | truncate a =>
      simp only [map_cons, strip, visibleFold]
      split_ifs
      · exact congrArg _ (funext ih)
      · exact ih d
    | drop => rfl
    | exclusive a => rfl
    | schema | properties => exact ih d

lemma TxDataEpoch.valid_strip (e : TxDataEpoch T) : e.strip.Valid := valid_of_none rfl

lemma TxDataEpoch.delta_snd_strip (e : TxDataEpoch T) : e.delta.2.strip = e.strip := by
  simp [strip, delta_snd_batches]

lemma overlayEpoch_strip {e : TxDataEpoch T} (h : e.Valid) (m : Option T.Delta) :
    (overlayEpoch readCommandId e m).1 = (overlayEpoch readCommandId e.strip m).1 ∧
      (overlayEpoch readCommandId e m).2.Valid ∧
      (overlayEpoch readCommandId e m).2.strip = e.strip := by
  cases readCommandId with
  | some c => exact ⟨rfl, h, rfl⟩
  | none =>
    have hf : e.delta.1 = e.strip.delta.1 := by
      rw [h.delta_fst, e.valid_strip.delta_fst]
      exact TxDataEpoch.buildDelta_congr rfl
    have hv := h.delta_snd
    have hs := e.delta_snd_strip
    simp only [overlayEpoch]
    rcases hd : e.delta with ⟨b, e'⟩
    rcases hd' : e.strip.delta with ⟨built', e''⟩
    rw [hd, hd'] at hf
    rw [hd] at hv hs
    obtain rfl : b = built' := hf
    cases b with
    | error error => exact ⟨rfl, hv, hs⟩
    | ok d =>
      dsimp only
      split_ifs
      · exact ⟨rfl, hv, hs⟩
      · cases m with
        | none | some => exact ⟨rfl, hv, hs⟩

/-- Filled epoch caches change neither the answer nor the actions. -/
lemma overlay_strip (cs : List (TxTableAction T)) (h : ValidEpochs cs) (c : Option T.Delta) :
    (overlay readCommandId cs c).1 = (overlay readCommandId (cs.map strip) c).1 ∧
      ValidEpochs (overlay readCommandId cs c).2 ∧
      (overlay readCommandId cs c).2.map strip = cs.map strip := by
  induction cs generalizing c with
  | nil => exact ⟨rfl, h, rfl⟩
  | cons a rest ih =>
    have ih := ih h.tail
    cases a with
    | data p =>
      obtain ⟨hf, hv, hs⟩ := overlayEpoch_strip readCommandId (h p mem_cons_self) c
      simp only [overlay, map_cons, strip]
      rcases hn : overlayEpoch readCommandId p c with ⟨r, ep'⟩
      rcases hn' : overlayEpoch readCommandId p.strip c with ⟨result', ep''⟩
      rw [hn, hn'] at hf
      rw [hn] at hv hs
      obtain rfl : r = result' := hf
      have hh : ∀ e, data ep' = .data e → e.Valid := by
        intro e he
        obtain rfl := data.inj he
        exact hv
      cases r with
      | error error => exact ⟨rfl, cons hh h.tail, by simp [strip, hs]⟩
      | ok n =>
        obtain ⟨hr, hep, ha⟩ := ih n
        exact ⟨hr, cons hh hep, by
          simp [strip, hs, ha]⟩
    | truncate a =>
      simp only [overlay, map_cons, strip]
      split_ifs
      · cases T.truncateTable (c.getD T.newDelta) with
        | error error => exact ⟨rfl, h, rfl⟩
        | ok d =>
          obtain ⟨hr, hep, ha⟩ := ih (some d)
          exact ⟨hr, cons (fun _ he => by cases he) hep, by
            simp [strip, ha]⟩
      · obtain ⟨hr, hep, ha⟩ := ih c
        exact ⟨hr, cons (fun _ he => by cases he) hep, by
          simp [strip, ha]⟩
    | drop | exclusive => exact ⟨rfl, h, rfl⟩
    | schema | properties =>
      obtain ⟨hr, hep, ha⟩ := ih c
      exact ⟨hr, cons (fun _ he => by cases he) hep, by
        simp [overlay, strip, ha]⟩

/-! ## Validity -/

/-- The overlay computed without any cache. -/
def coldOverlay (readCommandId : Option CommandId) (log : TxTableActionLog T) :
    Except IcebergError (Option T.Delta) :=
  answer (overlay readCommandId log.strip.actions none).1

/-- A read that finds every cache empty. -/
def coldRead (log : TxTableActionLog T) (cid : CommandId) : Except IcebergError (Option T.Delta) :=
  if (maxWriteCommandId log.strip.actions).all (fun max => decide (max < cid)) then
    coldOverlay none log
  else coldOverlay (some cid) log

structure ValidCaches (log : TxTableActionLog T) : Prop where
  epochs : ValidEpochs log.actions
  combined : ∀ delta, log.combinedDeltaCache = some delta → coldOverlay none log = .ok delta
  visible : ∀ cached, log.visibleDeltaCache = some cached →
    coldOverlay (some cached.readCommandId) log = .ok cached.delta
  max : ∀ max, log.maxWriteCommandIdCache = some max → maxWriteCommandId log.actions = max

variable {a b : TxTableActionLog T}

lemma coldOverlay_congr (h : a.strip = b.strip) (c : Option CommandId) :
    coldOverlay c a = coldOverlay c b := by
  unfold coldOverlay
  rw [h]

lemma maxWriteCommandId_congr (h : a.strip = b.strip) :
    maxWriteCommandId a.actions = maxWriteCommandId b.actions := by
  rw [← maxWriteCommandId_strip a.actions, ← maxWriteCommandId_strip b.actions,
    (strip_eq_iff a b).mp h]

lemma coldRead_congr (h : a.strip = b.strip) (c : CommandId) : coldRead a c = coldRead b c := by
  unfold coldRead
  rw [h, coldOverlay_congr h, coldOverlay_congr h]

variable {log : TxTableActionLog T}

lemma ValidCaches.of_cleared (he : ValidEpochs log.actions)
    (hc : log.combinedDeltaCache = none) (hv : log.visibleDeltaCache = none)
    (hm : log.maxWriteCommandIdCache = none) : ValidCaches log where
  epochs := he
  combined := by simp [hc]
  visible := by simp [hv]
  max := by simp [hm]

lemma ValidCaches.of_strip {log next : TxTableActionLog T} (h : ValidCaches log)
    (hs : next.strip = log.strip) (he : ValidEpochs next.actions)
    (hc : ∀ d, next.combinedDeltaCache = some d → log.combinedDeltaCache = some d ∨
      coldOverlay none log = .ok d)
    (hv : ∀ c, next.visibleDeltaCache = some c → log.visibleDeltaCache = some c ∨
      coldOverlay (some c.readCommandId) log = .ok c.delta)
    (hma : ∀ max, next.maxWriteCommandIdCache = some max → log.maxWriteCommandIdCache = some max ∨
      maxWriteCommandId log.actions = max) : ValidCaches next where
  epochs := he
  combined := by
    intro d hd
    rw [coldOverlay_congr hs]
    exact (hc d hd).elim (h.combined d) id
  visible := by
    intro c hca
    rw [coldOverlay_congr hs]
    exact (hv c hca).elim (h.visible c) id
  max := by
    intro max hm
    rw [maxWriteCommandId_congr hs]
    exact (hma max hm).elim (h.max max) id

/-! ## Reads -/

section Reads

variable {log : TxTableActionLog T}

section

variable (h : ValidCaches log)

include h

lemma ValidCaches.recompute {c : Option CommandId}
    {r : Except IcebergError (Option (Option T.Delta))} {cs : List (TxTableAction T)}
    (ho : overlay c log.actions none = (r, cs)) :
    coldOverlay c log = answer r ∧ ValidEpochs cs ∧
      ∀ next : TxTableActionLog T, next.actions = cs → next.strip = log.strip := by
  obtain ⟨hc, he, ha⟩ := overlay_strip c log.actions h.epochs none
  rw [ho] at hc he ha
  refine ⟨congrArg answer hc.symm, he, fun next hn => ?_⟩
  rw [strip_eq_iff, hn]
  exact ha

lemma combinedDelta_spec :
    log.combinedDelta.1 = coldOverlay none log ∧ ValidCaches log.combinedDelta.2 ∧
      log.combinedDelta.2.strip = log.strip := by
  unfold TxTableActionLog.combinedDelta
  split
  next d hca => exact ⟨(h.combined d hca).symm, h, rfl⟩
  split
  all_goals
    rename_i ho
    obtain ⟨hc, he, hs⟩ := h.recompute ho
    refine ⟨hc.symm, h.of_strip (hs _ rfl) he ?_ (fun _ => .inl) (fun _ => .inl), hs _ rfl⟩
    intro d hd
  · exact .inl hd
  · exact .inl hd
  · exact .inr (hc.trans (congrArg Except.ok (Option.some.inj hd)))

lemma computeVisible_spec (i : CommandId) :
    (log.computeVisible i).1 = coldOverlay (some i) log ∧
      ValidCaches (log.computeVisible i).2 ∧ (log.computeVisible i).2.strip = log.strip := by
  unfold TxTableActionLog.computeVisible
  split
  all_goals
    rename_i ho
    obtain ⟨hco, he, hs⟩ := h.recompute ho
    refine ⟨hco.symm, h.of_strip (hs _ rfl) he (fun _ => .inl) ?_ (fun _ => .inl), hs _ rfl⟩
    intro c hc
  · exact .inl hc
  · exact .inl hc
  · cases hc
    exact .inr hco

lemma loadMaxWriteCommandId_eq : log.loadMaxWriteCommandId = maxWriteCommandId log.actions := by
  unfold TxTableActionLog.loadMaxWriteCommandId
  cases hc : log.maxWriteCommandIdCache with
  | none => rfl
  | some max => exact (h.max max hc).symm

/-- A read with valid caches is a read without caches. -/
lemma visibleDelta_spec (i : CommandId) :
    (log.visibleDelta i).1 = coldRead log i ∧ ValidCaches (log.visibleDelta i).2 ∧
      (log.visibleDelta i).2.strip = log.strip := by
  have hmax := loadMaxWriteCommandId_eq h
  have hl : ValidCaches { log with maxWriteCommandIdCache := some log.loadMaxWriteCommandId } :=
    h.of_strip rfl h.epochs (fun _ => .inl) (fun _ => .inl)
      (fun max hm => .inr (hmax.symm.trans (Option.some.inj hm)))
  unfold TxTableActionLog.visibleDelta coldRead
  rw [log_strip_actions, maxWriteCommandId_strip, ← hmax]
  split_ifs with ho
  · exact combinedDelta_spec hl
  · split
    next c hc =>
      split_ifs with hci
      · subst hci
        exact ⟨(h.visible c hc).symm, hl, rfl⟩
      · exact computeVisible_spec hl i
    next => exact computeVisible_spec hl i

end

end Reads

/-! ## Staging -/

section Staging

variable {log : TxTableActionLog T}

lemma ValidEpochs.append {a b : List (TxTableAction T)} (ha : ValidEpochs a)
    (hb : ValidEpochs b) : ValidEpochs (a ++ b) := by
  intro e he
  exact (mem_append.mp he).elim (ha e) (hb e)

variable {cs : List (TxTableAction T)}

lemma ValidEpochs.mapLastEpoch (h : ValidEpochs cs) {f : TxDataEpoch T → TxDataEpoch T}
    (hf : ∀ p, (f p).combined = none) : ValidEpochs (mapLastEpoch f cs) := by
  cases hl : lastEpoch cs with
  | none =>
    unfold ActionLog.mapLastEpoch
    rwa [hl]
  | some p =>
    obtain ⟨i, rfl⟩ := lastEpoch_eq_some hl
    rw [mapLastEpoch_concat]
    refine append (fun e he => h e (mem_append_left _ he)) ?_
    intro e he
    rw [data.inj (mem_singleton.mp he)]
    exact TxDataEpoch.valid_of_none (hf p)

lemma ValidEpochs.warmEpochs (h : ValidEpochs cs)
    (es : ℕ → Bool) : ValidEpochs (warmEpochs es cs) := by
  intro e he
  obtain ⟨i, hi, hs⟩ := mem_mapIdx.mp he
  have hm := getElem_mem hi
  cases ha : cs[i] with
  | data o =>
    rw [ha] at hs hm
    split_ifs at hs
    · exact data.inj hs ▸ (h o hm).delta_snd
    · exact data.inj hs ▸ h o hm
  | _ =>
    rw [ha] at hs
    cases hs

lemma warmEpochs_strip (es : ℕ → Bool) (cs : List (TxTableAction T)) :
    (warmEpochs es cs).map strip = cs.map strip := by
  refine ext_getElem (by simp [warmEpochs]) fun i h₁ h₂ => ?_
  have hi : i < cs.length := by simpa using h₂
  simp only [warmEpochs, getElem_map, getElem_mapIdx]
  cases cs[i] with
  | data e =>
    split_ifs
    · exact congrArg data e.delta_snd_strip
    · rfl
  | _ => rfl

variable {act : TxTableAction T}

lemma overlay_definition (c : Option CommandId) (cs : List (TxTableAction T))
    (ha : (∃ u, act = .schema u) ∨ ∃ u, act = .properties u)
    (m : Option T.Delta) : (overlay c (cs ++ [act]) m).1 = (overlay c cs m).1 := by
  induction cs generalizing m with
  | nil => rcases ha with ⟨u, rfl⟩ | ⟨u, rfl⟩ <;> rfl
  | cons head rest ih =>
    cases head with
    | data e =>
      simp only [cons_append, overlay]
      rcases overlayEpoch c e m with ⟨_ | next, e'⟩
      · rfl
      · exact ih next
    | truncate truncate =>
      simp only [cons_append, overlay]
      split_ifs
      · cases T.truncateTable (m.getD T.newDelta) with
        | error error => rfl
        | ok d => exact ih (some d)
      · exact ih m
    | drop => rfl
    | exclusive exclusive => rfl
    | schema | properties => exact ih m

lemma ValidCaches.definition (h : ValidCaches log)
    (ha : (∃ u, act = .schema u) ∨ ∃ u, act = .properties u) :
    ValidCaches { log with actions := log.actions ++ [act] } := by
  have hs : act.strip = act := by
    rcases ha with ⟨u, rfl⟩ | ⟨u, rfl⟩ <;> rfl
  have hco : ∀ readCommandId,
      coldOverlay readCommandId { log with actions := log.actions ++ [act] } =
        coldOverlay readCommandId log := by
    intro readCommandId
    simp only [coldOverlay, log_strip_actions, map_append, map_cons, map_nil, hs,
      overlay_definition readCommandId _ ha]
  have hmax : maxWriteCommandId (log.actions ++ [act]) = maxWriteCommandId log.actions := by
    have hn : writeCommandId act = none := by
      rcases ha with ⟨u, rfl⟩ | ⟨u, rfl⟩ <;> rfl
    simp [maxWriteCommandId, filterMap_append, hn]
  refine ⟨h.epochs.append fun e he => ?_, fun d hd => ?_,
    fun c hc => ?_, fun max hm => hmax.trans (h.max max hm)⟩
  · rcases ha with ⟨u, rfl⟩ | ⟨u, rfl⟩ <;> simp at he
  · exact (hco none).trans (h.combined d hd)
  · exact (hco _).trans (h.visible c hc)

end Staging

/-! ## Whole runs -/

lemma LogEvent.apply_valid (h : ValidCaches log) (v : LogEvent T) : ValidCaches (v.apply log) := by
  -- a file action clears the log caches and brings no filled epoch
  have hc : ∀ a : TxTableAction T, (∀ e, a ≠ .data e) →
      ValidCaches { log.invalidateReadCaches with actions := log.actions ++ [a] } := by
    intro a ha
    refine .of_cleared (h.epochs.append fun e hep => ?_) rfl rfl rfl
    exact absurd (mem_singleton.mp hep).symm (ha e)
  cases v with
  | recordBatch b =>
    simp only [apply, TxTableActionLog.recordBatch, TxTableActionLog.pushBatch]
    split_ifs
    · exact h
    refine .of_cleared ?_ rfl rfl rfl
    cases lastEpoch log.actions with
    | some e => exact h.epochs.mapLastEpoch fun _ => rfl
    | none =>
      refine h.epochs.append fun e hep => TxDataEpoch.valid_of_none ?_
      rw [data.inj (mem_singleton.mp hep)]
      rfl
  | stageTruncate g i => exact hc _ fun _ he => by cases he
  | stageSchema u =>
    simp only [apply, TxTableActionLog.stageSchema]
    split_ifs
    · exact h
    · exact h.definition (.inl ⟨u, rfl⟩)
  | stageProperties u => exact h.definition (.inr ⟨u, rfl⟩)
  | stageDrop => exact hc _ fun _ he => by cases he
  | stageExclusive a =>
    simp only [apply, TxTableActionLog.stageExclusive]
    split_ifs
    · exact hc _ fun _ he => by cases he
    · exact h
  | rollback m =>
    have ht : ValidEpochs (log.actions.take m.actionLen) :=
      fun e hep => h.epochs e (mem_of_mem_take hep)
    refine .of_cleared ?_ rfl rfl rfl
    simp only [apply, TxTableActionLog.truncate]
    split
    · exact ht.mapLastEpoch fun _ => rfl
    · exact ht
  | visibleDelta c => exact (visibleDelta_spec h c).2.1
  | combinedDelta => exact (combinedDelta_spec h).2.1
  | warm p =>
    refine h.of_strip ?_ (h.epochs.warmEpochs p) (fun _ => .inl) (fun _ => .inl) fun _ => .inl
    exact (strip_eq_iff _ _).mpr (warmEpochs_strip p log.actions)

lemma LogEvent.apply_strip {e : LogEvent T} (hs : e.isStaging = true)
    (log : TxTableActionLog T) : (e.apply log.strip).strip = (e.apply log).strip := by
  cases e with
  | recordBatch b =>
    simp only [apply, TxTableActionLog.recordBatch]
    split_ifs
    · exact log_strip_strip log
    · exact pushBatch_strip log b
  | stageTruncate g c => exact strip_append log _ _ [.truncate ⟨g, c⟩] rfl rfl
  | stageSchema u =>
    simp only [apply, TxTableActionLog.stageSchema]
    split_ifs
    · exact log_strip_strip log
    · exact strip_append log _ _ [.schema u] rfl rfl
  | stageProperties u => exact strip_append log _ _ [.properties u] rfl rfl
  | stageDrop => exact strip_append log _ _ [.drop] rfl rfl
  | stageExclusive a =>
    simp only [apply, TxTableActionLog.stageExclusive, log_strip_actions, isEmpty_map]
    split_ifs
    · exact strip_append log _ _ [.exclusive a] rfl rfl
    · exact log_strip_strip log
  | rollback m => exact truncate_strip log m
  | visibleDelta | combinedDelta | warm => cases hs

lemma LogEvent.apply_strip_read {v : LogEvent T} (hr : v.isStaging = false)
    (h : ValidCaches log) : (v.apply log).strip = log.strip := by
  cases v with
  | visibleDelta c => exact (visibleDelta_spec h c).2.2
  | combinedDelta => exact (combinedDelta_spec h).2.2
  | warm e => exact (strip_eq_iff _ _).mpr (warmEpochs_strip e log.actions)
  | _ => cases hr

variable (es : List (LogEvent T))

open LogEvent

lemma foldl_apply_valid (h : ValidCaches log) : ValidCaches (es.foldl apply log) := by
  induction es generalizing log with
  | nil => exact h
  | cons e r ih => exact ih (e.apply_valid h)

lemma runLog_valid : ValidCaches (runLog es) :=
  foldl_apply_valid es (.of_cleared (fun _ he => by cases he) rfl rfl rfl)

lemma foldl_apply_filter (ha : ValidCaches a) (hab : a.strip = b.strip) :
    (es.foldl apply a).strip = ((es.filter isStaging).foldl apply b).strip := by
  induction es generalizing a b with
  | nil => exact hab
  | cons e r ih =>
    cases he : e.isStaging with
    | true =>
      rw [filter_cons_of_pos he]
      refine ih (e.apply_valid ha) ?_
      rw [← apply_strip he a, hab, apply_strip he b]
    | false =>
      rw [filter_cons_of_neg (by simp [he])]
      refine ih (e.apply_valid ha) ?_
      rw [apply_strip_read he ha, hab]

lemma runLog_filter : (runLog es).strip = (runLog (es.filter isStaging)).strip :=
  foldl_apply_filter es (.of_cleared (fun _ he => by cases he) rfl rfl rfl) rfl

/-! ## What a read returns -/

lemma coldOverlay_toOption (laws : DeltaLaws T) (c : Option CommandId) (log : TxTableActionLog T) :
    (coldOverlay c log).toOption = (visibleFold c log.actions T.newDelta).toOption := by
  have he : ValidEpochs log.strip.actions := by
    intro e hep
    obtain ⟨a, -, hs⟩ := mem_map.mp hep
    cases a with
    | data o => exact data.inj hs ▸ o.valid_strip
    | _ => cases hs
  rw [coldOverlay, overlay_toOption laws c _ he none, log_strip_actions, visibleFold_strip]
  rfl

lemma coldRead_toOption (laws : DeltaLaws T) (log : TxTableActionLog T) (c : CommandId) :
    (coldRead log c).toOption = (visibleFold (some c) log.actions T.newDelta).toOption := by
  unfold coldRead
  rw [log_strip_actions, maxWriteCommandId_strip]
  split_ifs with ho
  · rw [coldOverlay_toOption laws, visibleFold_of_max _ c (writeCommandId_lt ho)]
  · exact coldOverlay_toOption laws (some c) log

lemma visibleFold_of_withdrawn (cs : List (TxTableAction T)) (d : T.Delta)
    (h : cs.any isWithdrawal = true) : ∀ r, visibleFold readCommandId cs d = .ok r → r = none := by
  induction cs generalizing d with
  | nil => cases h
  | cons a rest ih =>
    intro r hr
    cases a with
    | data e =>
      obtain ⟨n, -, hre⟩ := bind_eq_ok hr
      exact ih n h r hre
    | truncate a =>
      simp only [visibleFold] at hr
      split_ifs at hr
      · obtain ⟨n, -, hre⟩ := bind_eq_ok hr
        exact ih n h r hre
      · exact ih d h r hr
    | drop | exclusive => exact (Except.ok.inj hr).symm
    | schema | properties => exact ih d h r hr

/-- What a read at `cid` has to return after a run: the fold over the visible
batches and truncates, whatever was read or computed before, and nothing once
the log holds a drop or an exclusive action. -/
structure ReadsOwnWrites (events : List (LogEvent T)) (cid : CommandId) : Prop where
  independent : ((runLog events).visibleDelta cid).1 =
    ((runLog (events.filter LogEvent.isStaging)).visibleDelta cid).1
  fold : ((runLog events).visibleDelta cid).1.toOption =
    (visibleFold (some cid) (runLog events).actions T.newDelta).toOption
  withdrawn : (runLog events).actions.any TxTableAction.isWithdrawal = true →
    ∀ result, ((runLog events).visibleDelta cid).1 = .ok result → result = none
  fastPath : (maxWriteCommandId (runLog events).actions).all (fun max => decide (max < cid)) →
    (runLog events).combinedDelta.1.toOption = ((runLog events).computeVisible cid).1.toOption

/-- A command sees exactly the writes of earlier commands of its transaction. -/
theorem runLog_readsOwnWrites (laws : DeltaLaws T) (events : List (LogEvent T))
    (c : CommandId) : ReadsOwnWrites events c := by
  have hv := runLog_valid events
  have hre := (visibleDelta_spec hv c).1
  have hf : ((runLog events).visibleDelta c).1.toOption =
      (visibleFold (some c) (runLog events).actions T.newDelta).toOption := by
    rw [hre, coldRead_toOption laws]
  refine ⟨?_, hf, fun hw r hr => ?_, fun ho => ?_⟩
  · rw [hre, (visibleDelta_spec (runLog_valid _) c).1]
    exact coldRead_congr (runLog_filter events) c
  · rw [hr] at hf
    cases hs : visibleFold (some c) (runLog events).actions T.newDelta with
    | error error =>
      rw [hs] at hf
      cases hf
    | ok f =>
      rw [hs] at hf
      exact (Option.some.inj hf).trans (visibleFold_of_withdrawn _ _ _ hw f hs)
  · rw [(combinedDelta_spec hv).1, (computeVisible_spec hv c).1, coldOverlay_toOption laws,
      coldOverlay_toOption laws, visibleFold_of_max _ c (writeCommandId_lt ho)]

/-- Two commands write, a later one truncates and is rolled back after a read;
a nested command finishes out of order. -/
def nestedCommands : List (LogEvent namedFiles) :=
  [.recordBatch ⟨1, (false, ["a"]), none⟩, .visibleDelta 3,
    .stageTruncate "v7" 3, .combinedDelta, .visibleDelta 4, .rollback ⟨1, some 1⟩,
    .stageSchema "add column", .recordBatch ⟨5, (false, ["b"]), none⟩, .visibleDelta 2,
    .recordBatch ⟨2, (false, ["c"]), none⟩, .warm fun _ => true]

theorem nestedCommands_readsOwnWrites :
    ReadsOwnWrites nestedCommands 4 ∧
      ((runLog nestedCommands).visibleDelta 4).1 = .ok (some (false, ["a", "c"])) :=
  ⟨runLog_readsOwnWrites namedFiles_laws nestedCommands 4, rfl⟩

end LagoDB.ActionLog
