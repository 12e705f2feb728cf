import LagoDB.CommitPlan

/-!
# The net effect of a commit plan

Readers of a transaction see its writes through the combined overlay; the
catalog sees the planned actions. Both lead from any base to the same files,
although the plan drops the epochs before the last TRUNCATE and moves the
truncation to the first epoch after it.
-/
namespace LagoDB.ActionLog

open ExceptLoop List TxTableAction Except

variable {T : Provider}

/-! ## Applying a plan -/

/-- What `apply_to_transaction` takes from iceberg-lite. -/
structure TransactionApi (T : Provider) where
  Metadata : Type
  Transaction : Type
  validateSchema : T.SchemaUpdate → Metadata → Except IcebergError Unit
  applySchemaToMetadata : T.SchemaUpdate → Metadata → Except IcebergError Metadata
  applySchema : T.SchemaUpdate → Transaction → Except IcebergError Transaction
  validateProperties : T.PropertyUpdate → Metadata → Except IcebergError Unit
  applyPropertiesToMetadata : T.PropertyUpdate → Metadata → Except IcebergError Metadata
  applyProperties : T.PropertyUpdate → Transaction → Except IcebergError Transaction
  snapshotDelta : T.Delta → (truncateBase : Bool) → Transaction → Except IcebergError Transaction
  rowDelta : T.Delta → List T.Validation → (truncateBase : Bool) → Transaction →
    Except IcebergError Transaction

namespace EffectiveCommitAction

/-- One iteration of `apply_to_transaction` over the rebased metadata and the
transaction. -/
def apply (api : TransactionApi T) :
    EffectiveCommitAction T → api.Metadata × api.Transaction →
      Except IcebergError (api.Metadata × api.Transaction)
  | .schema update, (metadata, transaction) => do
    api.validateSchema update metadata
    let metadata ← api.applySchemaToMetadata update metadata
    pure (metadata, ← api.applySchema update transaction)
  | .properties update, (metadata, transaction) => do
    api.validateProperties update metadata
    let metadata ← api.applyPropertiesToMetadata update metadata
    pure (metadata, ← api.applyProperties update transaction)
  | .data epoch truncateBase, (metadata, transaction) => do
    let delta ← epoch.delta.1
    let validations := epoch.validations
    if validations.isEmpty then
      pure (metadata, ← api.snapshotDelta delta truncateBase transaction)
    else
      pure (metadata, ← api.rowDelta delta validations truncateBase transaction)
  | .truncateOnly, (metadata, transaction) => do
    pure (metadata, ← api.snapshotDelta T.newDelta true transaction)

end EffectiveCommitAction

def TxTableCommitPlan.applyToTransaction (api : TransactionApi T) (plan : TxTableCommitPlan T)
    (transaction : api.Transaction) (baseMetadata : api.Metadata) :
    Except IcebergError api.Transaction := do
  let applied ← plan.actions.foldlM (fun state action => action.apply api state)
    (baseMetadata, transaction)
  pure applied.2

/-! ## Files -/

/-- The files of a table, and what a delta does to them. -/
structure FileSemantics (T : Provider) where
  Files : Type
  noFiles : Files
  apply : T.Delta → Files → Files

/-- What iceberg-lite promises about deltas: an empty delta changes nothing, an
append acts as one delta after the other, and a truncating delta forgets
everything before it. -/
structure FileLaws (sem : FileSemantics T) : Prop where
  newEmpty : T.deltaIsEmpty T.newDelta = true
  empty : ∀ delta, T.deltaIsEmpty delta = true → ∀ files, sem.apply delta files = files
  append : ∀ a b c, T.appendDelta a b = .ok c →
    ∀ files, sem.apply c files = sem.apply b (sem.apply a files)
  truncate : ∀ a c, T.truncateTable a = .ok c → ∀ files, sem.apply c files = sem.noFiles

/-- What the transaction API does to files: definitions leave them, a delta acts
on them, and `truncate_base` starts from no files. -/
structure ApiLaws (sem : FileSemantics T) (api : TransactionApi T)
    (files : api.Transaction → sem.Files) : Prop where
  schema : ∀ update a b, api.applySchema update a = .ok b → files b = files a
  properties : ∀ update a b, api.applyProperties update a = .ok b → files b = files a
  snapshotDelta : ∀ delta truncateBase a b, api.snapshotDelta delta truncateBase a = .ok b →
    files b = sem.apply delta (if truncateBase then sem.noFiles else files a)
  rowDelta : ∀ delta validations truncateBase a b,
    api.rowDelta delta validations truncateBase a = .ok b →
      files b = sem.apply delta (if truncateBase then sem.noFiles else files a)

def plannedFiles (sem : FileSemantics T) (actions : List (EffectiveCommitAction T))
    (base : sem.Files) : Except IcebergError sem.Files :=
  actions.foldlM (fun files action =>
    match action with
    | .data epoch truncateBase => do
      let delta ← epoch.delta.1
      pure (sem.apply delta (if truncateBase then sem.noFiles else files))
    | .truncateOnly => pure (sem.apply T.newDelta sem.noFiles)
    | _ => pure files) base

/-- What a reader of the overlay sees of a base. -/
def overlaidFiles (sem : FileSemantics T) (combined : Option T.Delta) (base : sem.Files) :
    sem.Files :=
  combined.elim base fun delta => sem.apply delta base

/-! ## Both sides against the staged history -/

section Files

variable {sem : FileSemantics T}

def epochDelta (epoch : TxDataEpoch T) : T.Delta := epoch.buildDelta.toOption.getD T.newDelta

def stagedFiles (sem : FileSemantics T) : List (TxTableAction T) → sem.Files → sem.Files
  | [], files => files
  | .data epoch :: rest, files => stagedFiles sem rest (sem.apply (epochDelta epoch) files)
  | .truncate _ :: rest, _ => stagedFiles sem rest sem.noFiles
  | _ :: rest, files => stagedFiles sem rest files

def Built (actions : List (TxTableAction T)) : Prop :=
  ∀ epoch, data epoch ∈ actions → ∃ delta, epoch.buildDelta = .ok delta

lemma Built.tail {act : TxTableAction T} {rest : List (TxTableAction T)}
    (h : Built (act :: rest)) : Built rest :=
  fun e he => h e (mem_cons_of_mem act he)

variable {e : TxDataEpoch T}

lemma epochDelta_eq {d : T.Delta} (h : e.buildDelta = .ok d) : epochDelta e = d := by
  rw [epochDelta, h]
  rfl

variable {cs : List (TxTableAction T)}

lemma delta_fst_epochDelta (hv : ValidEpochs cs) (hb : Built cs) (h : data e ∈ cs) :
    e.delta.1 = .ok (epochDelta e) := by
  obtain ⟨d, hd⟩ := hb e h
  rw [(hv e h).delta_fst, hd, epochDelta_eq hd]

lemma stagedFiles_of_truncate (h : cs.any isTruncate = true) (a b : sem.Files) :
    stagedFiles sem cs a = stagedFiles sem cs b := by
  induction cs generalizing a b with
  | nil => cases h
  | cons c rest ih =>
    cases c with
    | truncate truncate => rfl
    | _ => exact ih h _ _

variable (laws : FileLaws sem)
include laws

lemma apply_epochDelta_empty (h : e.isEmpty = true)
    (fs : sem.Files) : sem.apply (epochDelta e) fs = fs := by
  have hbu : e.buildDelta = .ok T.newDelta := by
    have hb : e.batches = [] := isEmpty_iff.mp h
    simp [TxDataEpoch.buildDelta, TxDataEpoch.appendVisible, hb]
    rfl
  rw [epochDelta_eq hbu]
  exact laws.empty _ laws.newEmpty fs

/-- Where a truncation is pending, the plan starts from no files. -/
lemma plannedFiles_eq (cs : List (TxTableAction T)) (hv : ValidEpochs cs)
    (hbu : Built cs) (p : Bool) (hp : cs.any isTruncate = true → p = true) (b : sem.Files) :
    plannedFiles sem (plannedActions p cs) b =
      .ok (stagedFiles sem cs (if p then sem.noFiles else b)) := by
  induction cs generalizing p b with
  | nil =>
    cases p with
    | true => exact congrArg ok (laws.empty _ laws.newEmpty sem.noFiles)
    | false => rfl
  | cons a rest ih =>
    have ih := ih hv.tail hbu.tail
    cases a with
    | data e =>
      rw [plannedActions_data]
      cases hb : rest.any isTruncate with
      | true =>
        rw [Bool.true_or, if_pos rfl, ih p hp b]
        exact congrArg ok (stagedFiles_of_truncate hb _ _)
      | false =>
        cases he : e.isEmpty with
        | true =>
          rw [Bool.or_true, if_pos rfl, ih p hp b, stagedFiles, apply_epochDelta_empty laws he]
        | false =>
          have hn := ih false (by simp [hb])
          have hd : e.delta.1 = .ok (epochDelta e) := delta_fst_epochDelta hv hbu mem_cons_self
          rw [Bool.or_false, if_neg Bool.false_ne_true, plannedFiles, foldlM_cons]
          dsimp only
          rw [bind_ok hd]
          exact hn _
    | truncate truncate =>
      obtain rfl := hp rfl
      exact ih true (fun _ => rfl) b
    | _ => exact ih p hp b

variable {c : Option T.Delta}

omit laws in
lemma overlay_withdrawn (h : (overlay none cs c).1 = .ok none) : cs.any isWithdrawal = true := by
  induction cs generalizing c with
  | nil => cases h
  | cons a rest ih =>
    cases a with
    | data e =>
      simp only [overlay] at h
      rcases hn : overlayEpoch none e c with ⟨_ | next, e'⟩
      · rw [hn] at h
        cases h
      · rw [hn] at h
        exact ih h
    | truncate truncate =>
      simp only [overlay, isVisible, if_true] at h
      cases hn : T.truncateTable (c.getD T.newDelta) with
      | error error =>
        rw [hn] at h
        cases h
      | ok d =>
        rw [hn] at h
        exact ih h
    | schema | properties => exact ih h
    | drop | exclusive => rfl

lemma apply_getD (c : Option T.Delta) (b : sem.Files) :
    overlaidFiles sem (nonEmpty c) b = sem.apply (c.getD T.newDelta) b := by
  cases c with
  | none => exact (laws.empty _ laws.newEmpty b).symm
  | some d =>
    cases he : T.deltaIsEmpty d with
    | true => simp [nonEmpty, overlaidFiles, Option.filter, he, laws.empty _ he]
    | false => simp [nonEmpty, overlaidFiles, Option.filter, he]

lemma overlayEpoch_files {e e' : TxDataEpoch T} (hv : e.Valid) {c next : Option T.Delta}
    (h : overlayEpoch none e c = (.ok next, e')) :
    ∃ d, e.buildDelta = .ok d ∧ ∀ b, sem.apply (next.getD T.newDelta) b =
      sem.apply d (sem.apply (c.getD T.newDelta) b) := by
  simp only [overlayEpoch] at h
  have hf := hv.delta_fst
  rcases hd : e.delta with ⟨_ | d, f⟩
  · rw [hd] at h
    cases h
  · rw [hd] at h hf
    refine ⟨d, hf.symm, fun b => ?_⟩
    dsimp only at h
    split_ifs at h with he
    · obtain rfl := ok.inj (Prod.mk.inj h).1
      exact (laws.empty d he _).symm
    · cases c with
      | none =>
        obtain rfl := ok.inj (Prod.mk.inj h).1
        exact congrArg _ (laws.empty _ laws.newEmpty b).symm
      | some c =>
        have ha := (Prod.mk.inj h).1
        cases hr : T.appendDelta c d with
        | error error =>
          rw [hr] at ha
          cases ha
        | ok a =>
          rw [hr] at ha
          cases ha
          exact laws.append c d a hr b

/-- An overlay that could be computed acts as the staged history. -/
lemma overlay_files (hv : ValidEpochs cs) {c r : Option T.Delta}
    (h : (overlay none cs c).1 = .ok (some r)) :
    Built cs ∧ ∀ b, sem.apply (r.getD T.newDelta) b =
      stagedFiles sem cs (sem.apply (c.getD T.newDelta) b) := by
  induction cs generalizing c with
  | nil =>
    cases h
    exact ⟨fun _ hep => (not_mem_nil hep).elim, fun b => rfl⟩
  | cons a rest ih =>
    have ih := @ih hv.tail
    -- definitions and truncates bring no epoch of their own
    have hb : (∀ e, a ≠ .data e) → Built rest → Built (a :: rest) := by
      intro ho hre e hep
      rcases mem_cons.mp hep with hs | hep
      · exact absurd hs.symm (ho e)
      · exact hre e hep
    cases a with
    | data e =>
      simp only [overlay] at h
      rcases hn : overlayEpoch none e c with ⟨_ | next, e'⟩
      · rw [hn] at h
        cases h
      · rw [hn] at h
        obtain ⟨d, hd, hf⟩ := overlayEpoch_files laws (hv e mem_cons_self) hn
        obtain ⟨hre, hr⟩ := ih h
        refine ⟨fun o ho => ?_, fun b => ?_⟩
        · rcases mem_cons.mp ho with hs | ho
          · exact ⟨d, data.inj hs ▸ hd⟩
          · exact hre o ho
        · rw [hr b, hf b, stagedFiles, epochDelta_eq hd]
    | truncate truncate =>
      simp only [overlay, isVisible, if_true] at h
      cases hn : T.truncateTable (c.getD T.newDelta) with
      | error error =>
        rw [hn] at h
        cases h
      | ok d =>
        rw [hn] at h
        obtain ⟨hre, hr⟩ := ih h
        refine ⟨hb (fun _ he => by cases he) hre, fun b => ?_⟩
        rw [hr b]
        exact congrArg _ (laws.truncate _ d hn b)
    | schema | properties =>
      obtain ⟨hre, hr⟩ := ih h
      exact ⟨hb (fun _ he => by cases he) hre, hr⟩
    | drop | exclusive => cases h

lemma combinedDelta_files {log : TxTableActionLog T} (hv : ValidCaches log)
    (hp : log.actions.any isWithdrawal = false) (h : log.combinedDelta.1 = .ok c) :
    Built log.actions ∧ ∀ b, overlaidFiles sem c b = stagedFiles sem log.actions b := by
  rw [(combinedDelta_spec hv).1] at h
  rcases ho : overlay none log.actions none with ⟨result, cs⟩
  have hr := (hv.recompute ho).1
  rw [h] at hr
  rcases result with e | _ | result
  · cases hr
  · have hw := overlay_withdrawn (congrArg Prod.fst ho)
    rw [hp] at hw
    cases hw
  · obtain rfl : c = nonEmpty result := ok.inj hr
    obtain ⟨hb, hf⟩ := overlay_files laws hv.epochs (congrArg Prod.fst ho)
    refine ⟨hb, fun b => ?_⟩
    rw [apply_getD laws, hf b]
    exact congrArg _ (laws.empty _ laws.newEmpty b)

omit laws in
/-- A transaction that went through has done to its files what the plan does. -/
lemma apply_files {api : TransactionApi T} {fs : api.Transaction → sem.Files}
    (ls : ApiLaws sem api fs) (cs : List (EffectiveCommitAction T))
    {s f : api.Metadata × api.Transaction}
    (h : cs.foldlM (fun s act => act.apply api s) s = .ok f) :
    plannedFiles sem cs (fs s.2) = .ok (fs f.2) := by
  induction cs generalizing s with
  | nil =>
    cases h
    rfl
  | cons act r ih =>
    obtain ⟨n, hn, hr⟩ := bind_eq_ok h
    have ih := ih hr
    obtain ⟨m, t⟩ := s
    rw [plannedFiles, foldlM_cons]
    cases act with
    | schema u | properties u =>
      obtain ⟨-, -, hn⟩ := bind_eq_ok hn
      obtain ⟨m', -, hn⟩ := bind_eq_ok hn
      obtain ⟨t', ht, hn⟩ := bind_eq_ok hn
      cases hn
      first
      | rw [← ls.schema u t t' ht]
      | rw [← ls.properties u t t' ht]
      exact ih
    | data e b =>
      obtain ⟨d, hd, hn⟩ := bind_eq_ok hn
      have hf : fs n.2 = sem.apply d (if b then sem.noFiles else fs t) := by
        dsimp only at hn
        split_ifs at hn
        · obtain ⟨t', ht, hn⟩ := bind_eq_ok hn
          cases hn
          exact ls.snapshotDelta d b t t' ht
        · obtain ⟨t', ht, hn⟩ := bind_eq_ok hn
          cases hn
          exact ls.rowDelta d _ b t t' ht
      dsimp only
      rw [bind_ok hd]
      exact hf ▸ ih
    | truncateOnly =>
      obtain ⟨t', ht, hn⟩ := bind_eq_ok hn
      cases hn
      have hf := ls.snapshotDelta T.newDelta true t t' ht
      have hr : plannedFiles sem r (sem.apply T.newDelta sem.noFiles) = .ok (fs f.2) := by
        rw [← ih]
        exact congrArg _ hf.symm
      exact hr

end Files

/-! ## The net effect -/

/-- A log can be planned wherever its epochs can be built, every plan has the
right shape, and its files are those of the combined overlay, also after it went
through a transaction of iceberg-lite. -/
structure NetEffect (sem : FileSemantics T) (api : TransactionApi T)
    (filesOf : api.Transaction → sem.Files) (log : TxTableActionLog T) : Prop where
  planned : (log.actions.any isTruncate = true → Built log.actions) →
    ∃ plan, log.commitPlan = .ok plan
  shape : ∀ plan, log.commitPlan = .ok plan → PlanShape log plan
  files : ∀ combined, log.combinedDelta.1 = .ok combined →
    ∃ plan, log.commitPlan = .ok plan ∧
      ∀ base, plannedFiles sem plan.actions base = .ok (overlaidFiles sem combined base)
  transaction : ∀ combined, log.combinedDelta.1 = .ok combined →
    ∀ plan, log.commitPlan = .ok plan → ∀ transaction baseMetadata committed,
      plan.applyToTransaction api transaction baseMetadata = .ok committed →
        filesOf committed = overlaidFiles sem combined (filesOf transaction)

theorem runLog_netEffect {sem : FileSemantics T} (laws : FileLaws sem) {api : TransactionApi T}
    {files : api.Transaction → sem.Files} (apiLaws : ApiLaws sem api files)
    (events : List (LogEvent T)) (hplain : (runLog events).actions.any isWithdrawal = false) :
    NetEffect sem api files (runLog events) := by
  have hv := runLog_valid events
  have hf : ∀ c, (runLog events).combinedDelta.1 = .ok c →
      ∀ plan, (runLog events).commitPlan = .ok plan →
        ∀ base, plannedFiles sem plan.actions base = .ok (overlaidFiles sem c base) := by
    intro c hc plan hp base
    obtain ⟨hb, ho⟩ := combinedDelta_files laws hv hplain hc
    rw [(commitPlan_ok hplain hp).1, ho base, plannedFiles_eq laws _ hv.epochs hb _ id base]
    cases ht : (runLog events).actions.any isTruncate with
    | true => exact congrArg ok (stagedFiles_of_truncate ht _ _)
    | false => rfl
  refine ⟨commitPlan_total hv.epochs hplain, fun plan => commitPlan_shape hplain, ?_, ?_⟩
  · intro c hc
    obtain ⟨hb, -⟩ := combinedDelta_files laws hv hplain hc
    obtain ⟨plan, hp⟩ := commitPlan_total hv.epochs hplain fun _ => hb
    exact ⟨plan, hp, hf c hc plan hp⟩
  · intro c hc plan hp t bm o hco
    obtain ⟨f, hfi, hpu⟩ := bind_eq_ok hco
    cases hpu
    have hpl := apply_files apiLaws plan.actions hfi
    rw [hf c hc plan hp] at hpl
    exact (ok.inj hpl).symm

def namedFileLists : FileSemantics namedFiles where
  Files := List String
  noFiles := []
  apply delta files := if delta.1 then delta.2 else files ++ delta.2

lemma namedFileLists_laws : FileLaws namedFileLists where
  newEmpty := rfl
  empty := by
    rintro ⟨cut, a⟩ he (f : List String)
    have hn : cut = false ∧ a = [] := by simpa [namedFiles] using he
    obtain ⟨rfl, rfl⟩ := hn
    exact append_nil f
  append := by
    rintro ⟨cut, a⟩ ⟨cut', a'⟩ c hc (f : List String)
    cases hc
    cases cut with
    | true => cases cut' <;> rfl
    | false =>
      cases cut' with
      | true => rfl
      | false => exact (append_assoc f a a').symm
  truncate := by
    rintro ⟨cut, a⟩ c hc f
    cases hc
    rfl

/-- A transaction that records the definitions and the files. -/
def namedFileApi : TransactionApi namedFiles where
  Metadata := List String
  Transaction := List String × List String
  validateSchema _ _ := .ok ()
  applySchemaToMetadata update metadata := .ok (update :: metadata)
  applySchema update transaction := .ok (update :: transaction.1, transaction.2)
  validateProperties _ _ := .ok ()
  applyPropertiesToMetadata update metadata := .ok (update :: metadata)
  applyProperties update transaction := .ok (update :: transaction.1, transaction.2)
  snapshotDelta delta truncateBase transaction :=
    .ok (transaction.1, namedFileLists.apply delta (if truncateBase then [] else transaction.2))
  rowDelta delta _ truncateBase transaction :=
    .ok (transaction.1, namedFileLists.apply delta (if truncateBase then [] else transaction.2))

lemma namedFileApi_laws : ApiLaws namedFileLists namedFileApi Prod.snd where
  schema := by
    rintro u a b hb
    cases hb
    rfl
  properties := by
    rintro u a b hb
    cases hb
    rfl
  snapshotDelta := by
    rintro d t a b hb
    cases hb
    rfl
  rowDelta := by
    rintro d v t a b hb
    cases hb
    rfl

/-- A schema change splits the data, two truncates cut it, and an epoch that a
rollback emptied stays behind. -/
def truncatedHistory : List (LogEvent namedFiles) :=
  [.recordBatch ⟨1, (false, ["a"]), none⟩, .stageTruncate "v1" 2, .stageSchema "add column",
    .recordBatch ⟨3, (false, ["b"]), none⟩, .stageTruncate "v2" 4,
    .recordBatch ⟨5, (false, ["c"]), none⟩, .rollback ⟨6, some 0⟩, .stageProperties "owner",
    .recordBatch ⟨6, (false, ["d"]), some ()⟩, .stageSchema "drop column",
    .recordBatch ⟨7, (false, ["e"]), none⟩]

theorem truncatedHistory_netEffect :
    (runLog truncatedHistory).actions.any isWithdrawal = false ∧
      (runLog truncatedHistory).combinedDelta.1 = .ok (some (true, ["d", "e"])) ∧
      NetEffect namedFileLists namedFileApi Prod.snd (runLog truncatedHistory) :=
  ⟨rfl, rfl, runLog_netEffect namedFileLists_laws namedFileApi_laws truncatedHistory rfl⟩

end LagoDB.ActionLog
