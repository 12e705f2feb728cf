import LagoDB.ActionLog
import LagoDB.ExceptLoop

/-!
# What a command sees of its own transaction

A reader with command id `cid` sees the batches and truncates staged by earlier
commands. `visible_delta` answers from three caches of the log and one per data
epoch; when every staged command is older than the reader it takes the combined
overlay, which is appended epoch by epoch and not batch by batch.

Every read returns what the same read returns on a log without caches. Where it
succeeds, the result is the fold over the visible batches and truncates.
-/
namespace LagoDB.ActionLog

open List TxTableAction

variable {T : Provider}

/-! ## Reads -/

/-- The command ids a read has to compare with. -/
def TxTableAction.writeCommandId : TxTableAction T → Option CommandId
  | .data epoch => epoch.maxWriteCommandId
  | .truncate action => some action.commandId
  | _ => none

variable (actions : List (TxTableAction T))

def maxWriteCommandId : Option CommandId :=
  (actions.filterMap writeCommandId).max?

/-- One data epoch of the overlay. Without a reader the epoch's own delta is
shared or appended as a whole, and its cache is filled on the way. -/
def overlayEpoch (readCommandId : Option CommandId) (epoch : TxDataEpoch T)
    (combined : Option T.Delta) : Except IcebergError (Option T.Delta) × TxDataEpoch T :=
  match readCommandId with
  | none =>
    match epoch.delta with
    | (.error error, epoch) => (.error error, epoch)
    | (.ok delta, epoch) =>
      if T.deltaIsEmpty delta then (.ok combined, epoch)
      else
        match combined with
        | some combined => ((T.appendDelta combined delta).map some, epoch)
        | none => (.ok (some delta), epoch)
  | some _ =>
    ((epoch.appendVisible (combined.getD T.newDelta) readCommandId).map some, epoch)

/-- The loop of `visible_delta`. A drop or an exclusive action ends it without a
result, which is the inner `none`. The actions come back with their epoch caches
as the loop left them. -/
def overlay (readCommandId : Option CommandId) :
    List (TxTableAction T) → Option T.Delta →
      Except IcebergError (Option (Option T.Delta)) × List (TxTableAction T)
  | [], combined => (.ok (some combined), [])
  | .data epoch :: rest, combined =>
    match overlayEpoch readCommandId epoch combined with
    | (.error error, epoch) => (.error error, .data epoch :: rest)
    | (.ok combined, epoch) =>
      let result := overlay readCommandId rest combined
      (result.1, .data epoch :: result.2)
  | .truncate action :: rest, combined =>
    if isVisible readCommandId action.commandId then
      match T.truncateTable (combined.getD T.newDelta) with
      | .error error => (.error error, .truncate action :: rest)
      | .ok delta =>
        let result := overlay readCommandId rest (some delta)
        (result.1, .truncate action :: result.2)
    else
      let result := overlay readCommandId rest combined
      (result.1, .truncate action :: result.2)
  | .drop :: rest, _ => (.ok none, .drop :: rest)
  | .exclusive action :: rest, _ => (.ok none, .exclusive action :: rest)
  | .schema update :: rest, combined =>
    let result := overlay readCommandId rest combined
    (result.1, .schema update :: result.2)
  | .properties update :: rest, combined =>
    let result := overlay readCommandId rest combined
    (result.1, .properties update :: result.2)

/-- `combined.filter(|delta| !delta.is_empty())`. -/
def nonEmpty (combined : Option T.Delta) : Option T.Delta :=
  combined.filter fun delta => !T.deltaIsEmpty delta

namespace TxTableActionLog

variable (log : TxTableActionLog T)

/-- `visible_delta(None)`. -/
def combinedDelta :
    Except IcebergError (Option T.Delta) × TxTableActionLog T :=
  match log.combinedDeltaCache with
  | some delta => (.ok delta, log)
  | none =>
    match overlay none log.actions none with
    | (.error error, actions) => (.error error, { log with actions := actions })
    | (.ok none, actions) => (.ok none, { log with actions := actions })
    | (.ok (some combined), actions) =>
      (.ok (nonEmpty combined),
        { log with actions := actions, combinedDeltaCache := some (nonEmpty combined) })

/-- The maximum is computed once and kept until the next file action. -/
def loadMaxWriteCommandId : Option CommandId :=
  log.maxWriteCommandIdCache.getD (maxWriteCommandId log.actions)

/-- The part of `visible_delta(Some(cid))` behind both cache checks. -/
def computeVisible (cid : CommandId) :
    Except IcebergError (Option T.Delta) × TxTableActionLog T :=
  match overlay (some cid) log.actions none with
  | (.error error, actions) => (.error error, { log with actions := actions })
  | (.ok none, actions) => (.ok none, { log with actions := actions })
  | (.ok (some combined), actions) =>
    (.ok (nonEmpty combined),
      { log with
        actions := actions
        visibleDeltaCache := some ⟨cid, nonEmpty combined⟩ })

/-- `visible_delta(Some(cid))`. -/
def visibleDelta (cid : CommandId) :
    Except IcebergError (Option T.Delta) × TxTableActionLog T :=
  let loaded := { log with maxWriteCommandIdCache := some log.loadMaxWriteCommandId }
  if log.loadMaxWriteCommandId.all (fun max => decide (max < cid)) then loaded.combinedDelta
  else
    match log.visibleDeltaCache with
    | some cached =>
      if cached.readCommandId = cid then (.ok cached.delta, loaded)
      else loaded.computeVisible cid
    | none => loaded.computeVisible cid

end TxTableActionLog

/-- `epoch.delta()` on some of the epochs, as commit planning and the collection
of created paths call it. -/
def warmEpochs (warm : ℕ → Bool) (actions : List (TxTableAction T)) : List (TxTableAction T) :=
  actions.mapIdx fun index action =>
    match action with
    | .data epoch => if warm index then .data epoch.delta.2 else .data epoch
    | action => action

/-! ## The uncached fold -/

/-- Batches and truncates in staging order, restricted to those the reader
sees. Without a reader everything is visible. -/
def visibleFold (readCommandId : Option CommandId) :
    List (TxTableAction T) → T.Delta → Except IcebergError (Option T.Delta)
  | [], delta => .ok (nonEmpty (some delta))
  | .data epoch :: rest, delta => do
    visibleFold readCommandId rest (← epoch.appendVisible delta readCommandId)
  | .truncate action :: rest, delta =>
    if isVisible readCommandId action.commandId then do
      visibleFold readCommandId rest (← T.truncateTable delta)
    else visibleFold readCommandId rest delta
  | .drop :: _, _ => .ok none
  | .exclusive _ :: _, _ => .ok none
  | .schema _ :: rest, delta => visibleFold readCommandId rest delta
  | .properties _ :: rest, delta => visibleFold readCommandId rest delta

/-- What iceberg-lite promises of `append_delta`: it is associative, also in
whether it fails, and an empty delta is its unit. -/
structure DeltaLaws (T : Provider) : Prop where
  newEmpty : T.deltaIsEmpty T.newDelta = true
  appendEmpty : ∀ delta empty, T.deltaIsEmpty empty = true → T.appendDelta delta empty = .ok delta
  emptyAppend : ∀ empty delta, T.deltaIsEmpty empty = true → T.appendDelta empty delta = .ok delta
  appendAssoc : ∀ a b c, (T.appendDelta a b >>= fun ab => T.appendDelta ab c).toOption =
    (T.appendDelta b c >>= fun bc => T.appendDelta a bc).toOption

/-- Deltas over file names: whether the base is cut off, and the files added. -/
def namedFiles : Provider where
  Delta := Bool × List String
  Validation := Unit
  SchemaUpdate := String
  PropertyUpdate := String
  Exclusive := Unit
  Guard := String
  newDelta := (false, [])
  appendDelta a b := .ok (if b.1 then b else (a.1, a.2 ++ b.2))
  truncateTable _ := .ok (true, [])
  deltaIsEmpty delta := !delta.1 && delta.2.isEmpty
  createdFilePaths delta := delta.2
  canceledCreatedFilePaths _ := []
  schemaIsEmpty update := update.isEmpty
  conflictError _ := .invariantViolated "conflict"
  notExclusiveInvariant := "not exclusive"
  misplacedInvariant := "misplaced"

lemma namedFiles_laws : DeltaLaws namedFiles where
  newEmpty := rfl
  appendEmpty := by
    rintro ⟨cut, f⟩ ⟨cut', f'⟩ he
    simp_all [namedFiles]
  emptyAppend := by
    rintro ⟨cut, f⟩ ⟨cut', f'⟩ he
    cases cut' <;> simp_all [namedFiles]
  appendAssoc := by
    rintro ⟨cut, f⟩ ⟨cut', f'⟩ ⟨cut'', f''⟩
    cases cut' <;> cases cut'' <;> simp [namedFiles, Bind.bind, Except.bind]

/-! ## Regrouping appends -/

section Regroup

/-- Appending, seen only through its successes. -/
def appended (a b : T.Delta) : Option T.Delta := (T.appendDelta a b).toOption

lemma toOption_bind {α β : Type} (x : Except IcebergError α) (f : α → Except IcebergError β) :
    (x >>= f).toOption = x.toOption.bind fun a => (f a).toOption := by
  cases x <;> rfl

lemma toOption_foldlM {α β : Type} (f : β → α → Except IcebergError β) (ts : List α) (b : β) :
    (ts.foldlM f b).toOption = ts.foldlM (fun b a => (f b a).toOption) b := by
  induction ts generalizing b with
  | nil => rfl
  | cons a rest ih =>
    rw [foldlM_cons, toOption_bind]
    exact congrArg _ (funext ih)

variable (laws : DeltaLaws T)
include laws

lemma appended_new (d : T.Delta) : appended d T.newDelta = some d := by
  rw [appended, laws.appendEmpty _ _ laws.newEmpty]
  rfl

lemma new_appended (d : T.Delta) : appended T.newDelta d = some d := by
  rw [appended, laws.emptyAppend _ _ laws.newEmpty]
  rfl

lemma appended_assoc (a b c : T.Delta) : ((appended a b).bind fun ab => appended ab c) =
      (appended b c).bind fun bc => appended a bc := by
  have ha := laws.appendAssoc a b c
  rw [toOption_bind, toOption_bind] at ha
  exact ha

lemma foldlM_appended (ds : List T.Delta) (d : T.Delta) : ds.foldlM appended d =
      (ds.foldlM appended T.newDelta).bind fun run => appended d run := by
  induction ds generalizing d with
  | nil => exact (appended_new laws d).symm
  | cons x rest ih =>
    calc (x :: rest).foldlM appended d
        = (appended d x).bind fun dx => rest.foldlM appended dx := rfl
      _ = (appended d x).bind fun dx =>
            (rest.foldlM appended T.newDelta).bind fun run => appended dx run :=
          congrArg _ (funext ih)
      _ = (rest.foldlM appended T.newDelta).bind fun run =>
            (appended d x).bind fun dx => appended dx run := Option.bind_comm ..
      _ = (rest.foldlM appended T.newDelta).bind fun run =>
            (appended x run).bind fun xr => appended d xr :=
          congrArg _ (funext fun run => appended_assoc laws d x run)
      _ = (rest.foldlM appended x).bind fun run => appended d run := by
          rw [ih x, Option.bind_assoc]
      _ = ((x :: rest).foldlM appended T.newDelta).bind fun run => appended d run := by
          rw [foldlM_cons, new_appended laws]
          rfl

end Regroup

/-! ## Epochs -/

namespace TxDataEpoch

/-- A filled cache holds what would be built now. -/
def Valid (epoch : TxDataEpoch T) : Prop :=
  ∀ delta, epoch.combined = some delta → epoch.buildDelta = .ok delta

variable {e : TxDataEpoch T}

lemma Valid.delta_fst (h : e.Valid) : e.delta.1 = e.buildDelta := by
  unfold delta
  cases hc : e.combined with
  | some delta => exact (h delta hc).symm
  | none => cases hb : e.buildDelta <;> rfl

lemma delta_snd_batches (e : TxDataEpoch T) : e.delta.2.batches = e.batches := by
  unfold delta
  cases e.combined with
  | some delta => rfl
  | none => cases e.buildDelta <;> rfl

lemma buildDelta_congr {a b : TxDataEpoch T} (h : a.batches = b.batches) :
    a.buildDelta = b.buildDelta := by
  unfold buildDelta appendVisible
  rw [h]

lemma Valid.delta_snd (h : e.Valid) : e.delta.2.Valid := by
  intro b hbu
  rw [buildDelta_congr e.delta_snd_batches]
  unfold delta at hbu
  cases hc : e.combined with
  | some c =>
    rw [hc] at hbu
    exact h b (hc ▸ hbu)
  | none =>
    rw [hc] at hbu
    cases hb : e.buildDelta with
    | ok f =>
      rw [hb] at hbu
      exact congrArg Except.ok (Option.some.inj hbu)
    | error error =>
      rw [hb] at hbu
      exact absurd (hc ▸ hbu) (by simp)

lemma valid_of_none (h : e.combined = none) : e.Valid := by
  intro d hd
  rw [h] at hd
  cases hd

lemma appendVisible_none (e : TxDataEpoch T) (d : T.Delta) :
    (e.appendVisible d none).toOption = (e.batches.map (·.delta)).foldlM appended d := by
  unfold appendVisible
  rw [toOption_foldlM, foldlM_map]
  rfl

lemma buildDelta_toOption (laws : DeltaLaws T) (e : TxDataEpoch T) :
    e.buildDelta.toOption = (e.batches.map (·.delta)).foldlM appended T.newDelta := by
  unfold buildDelta
  split
  · rename_i b hb
    rw [hb]
    simp [new_appended laws]
    rfl
  · exact appendVisible_none e T.newDelta

end TxDataEpoch

/-! ## The overlay is the fold -/

/-- What a finished loop answers; the inner `none` is a drop or an exclusive
action. -/
def answer (result : Except IcebergError (Option (Option T.Delta))) :
    Except IcebergError (Option T.Delta) :=
  result.map fun outcome => outcome.bind nonEmpty

def ValidEpochs : Prop :=
  ∀ epoch, data epoch ∈ actions → epoch.Valid

variable {rest : List (TxTableAction T)} {act : TxTableAction T}

lemma ValidEpochs.tail (h : ValidEpochs (act :: rest)) : ValidEpochs rest :=
  fun e he => h e (mem_cons_of_mem act he)

lemma ValidEpochs.cons (ha : ∀ e, act = .data e → e.Valid) (hr : ValidEpochs rest) :
    ValidEpochs (act :: rest) := by
  intro e he
  rcases mem_cons.mp he with hs | he
  · exact ha e hs.symm
  · exact hr e he

lemma nonEmpty_getD (laws : DeltaLaws T) (c : Option T.Delta) :
    nonEmpty (some (c.getD T.newDelta)) = nonEmpty c := by
  cases c with
  | none => simp [nonEmpty, laws.newEmpty]
  | some d => rfl

lemma overlayEpoch_toOption (laws : DeltaLaws T) (r : Option CommandId)
    {e : TxDataEpoch T} (h : e.Valid) (m : Option T.Delta) :
    (overlayEpoch r e m).1.toOption.map (·.getD T.newDelta) =
      (e.appendVisible (m.getD T.newDelta) r).toOption := by
  cases r with
  | some c =>
    simp only [overlayEpoch]
    cases e.appendVisible (m.getD T.newDelta) (some c) <;> rfl
  | none =>
    rw [TxDataEpoch.appendVisible_none, foldlM_appended laws,
      ← TxDataEpoch.buildDelta_toOption laws, ← h.delta_fst]
    simp only [overlayEpoch]
    rcases hd : e.delta with ⟨b, e'⟩
    cases b with
    | error error => rfl
    | ok d =>
      dsimp only
      split_ifs with he
      · change some (m.getD T.newDelta) = appended (m.getD T.newDelta) d
        rw [appended, laws.appendEmpty _ _ he]
        rfl
      · cases m with
        | none => exact (new_appended laws d).symm
        | some m =>
          change ((T.appendDelta m d).map some).toOption.map _ = appended m d
          unfold appended
          cases T.appendDelta m d <;> rfl

lemma overlay_toOption (laws : DeltaLaws T) (c : Option CommandId)
    (cs : List (TxTableAction T)) (h : ValidEpochs cs) (m : Option T.Delta) :
    (answer (overlay c cs m).1).toOption = (visibleFold c cs (m.getD T.newDelta)).toOption := by
  induction cs generalizing m with
  | nil => exact congrArg some (nonEmpty_getD laws m).symm
  | cons a rest ih =>
    have ih := ih h.tail
    cases a with
    | data e =>
      have he := overlayEpoch_toOption laws c (h e mem_cons_self) m
      rw [visibleFold, toOption_bind, ← he]
      simp only [overlay]
      rcases overlayEpoch c e m with ⟨r, e'⟩
      cases r with
      | error error => rfl
      | ok n => exact ih n
    | truncate a =>
      simp only [overlay, visibleFold]
      split_ifs with hv
      · rw [toOption_bind]
        cases T.truncateTable (m.getD T.newDelta) with
        | error error => rfl
        | ok d => exact ih (some d)
      · exact ih m
    | drop => rfl
    | exclusive a => rfl
    | schema | properties => exact ih m

/-! ## The fast path -/

lemma lt_of_max? {cs : List CommandId} {c m : CommandId}
    (hma : ∀ max ∈ cs.max?, max < c) (hme : m ∈ cs) : m < c := by
  cases hm : cs.max? with
  | none =>
    rw [List.max?_eq_none_iff] at hm
    simp [hm] at hme
  | some max =>
    have hle : m ≤ max := (List.max?_eq_some_iff.mp hm).2 m hme
    exact lt_of_le_of_lt hle (hma max hm)

lemma TxDataEpoch.appendVisible_of_max (e : TxDataEpoch T) (c : CommandId)
    (hm : ∀ m ∈ e.maxWriteCommandId, m < c) (d : T.Delta) :
    e.appendVisible d (some c) = e.appendVisible d none := by
  have hba : ∀ a ∈ e.batches, a.writeCommandId < c :=
    fun a hbat => lt_of_max? hm (mem_map_of_mem hbat)
  unfold appendVisible
  generalize e.batches = batches at hba
  induction batches generalizing d with
  | nil => rfl
  | cons a rest ih =>
    have hbat : a.writeCommandId < c := hba a mem_cons_self
    have hr := fun d => ih d fun b hb => hba b (mem_cons_of_mem a hb)
    simp only [foldlM_cons, isVisible, hbat, decide_true, if_true]
    exact congrArg _ (funext hr)

lemma visibleFold_of_max (cs : List (TxTableAction T)) (c : CommandId)
    (hm : ∀ act ∈ cs, ∀ m ∈ writeCommandId act, m < c)
    (d : T.Delta) : visibleFold (some c) cs d = visibleFold none cs d := by
  induction cs generalizing d with
  | nil => rfl
  | cons act rest ih =>
    have ih := ih fun o ho => hm o (mem_cons_of_mem act ho)
    have hh := hm act mem_cons_self
    cases act with
    | data e => simp only [visibleFold, e.appendVisible_of_max c hh d, ih]
    | truncate act =>
      have hv : act.commandId < c := hh _ rfl
      simp only [visibleFold, isVisible, hv, decide_true, if_true, ih]
    | drop => rfl
    | exclusive act => rfl
    | schema | properties => exact ih d

lemma writeCommandId_lt {cs : List (TxTableAction T)} {c : CommandId}
    (hma : (maxWriteCommandId cs).all (fun max => decide (max < c)) = true) :
    ∀ act ∈ cs, ∀ m ∈ writeCommandId act, m < c := by
  intro act ha m hco
  have hc : ∀ max ∈ maxWriteCommandId cs, max < c := by
    intro max hm
    rw [Option.mem_def] at hm
    simpa [hm] using hma
  exact lt_of_max? hc (mem_filterMap.mpr ⟨act, ha, hco⟩)

/-! ## Created files -/

/-- The files of a delta as iceberg-lite reports them: a combined delta has created what
its parts have created. -/
structure CreatedLaws (T : Provider) : Prop where
  new : T.createdFilePaths T.newDelta = []
  append : ∀ a b c, T.appendDelta a b = .ok c → ∀ path,
    path ∈ T.createdFilePaths c ↔ path ∈ T.createdFilePaths a ∨ path ∈ T.createdFilePaths b

lemma created_buildDelta (laws : CreatedLaws T) {e : TxDataEpoch T} {d : T.Delta}
    (h : e.buildDelta = .ok d) (path : String) :
    path ∈ T.createdFilePaths d ↔ path ∈ e.batches.flatMap fun b => T.createdFilePaths b.delta := by
  unfold TxDataEpoch.buildDelta at h
  split at h
  · rename_i b hb
    cases h
    simp [hb]
  · have hf := ExceptLoop.foldlM_eq_ok (I := fun done d => path ∈ T.createdFilePaths d ↔
        path ∈ done.flatMap fun b : TxWriteBatch T => T.createdFilePaths b.delta)
      (fun b _ done d d' hd hs => ?_) [] (by simp [laws.new]) h
    · simpa using hf
    · simp only [isVisible, if_true] at hs
      simp only [laws.append _ _ _ hs, hd, flatMap_append, mem_append,
        flatMap_cons, flatMap_nil, append_nil]

end LagoDB.ActionLog
