import LagoDB.StagedCreateRuns
import Mathlib.Data.List.Pairwise

/-!
# What a transaction keeps of staged creations

In the machine that copies all tables it is plain that a remote table has at most one
active owner and that no two generations name the same file.
-/
namespace LagoDB.StagedCreates

open ActionLog Savepoint StorageResources List StateView ExceptLoop GenerationView

variable {T : Provider} {B C F : Type}

/-! ## The two machines -/

/-- `staged` is the answer of the catalog, `hits` the catalogs an invalidation names. -/
inductive ForeignEvent (T : Provider) (B C : Type) where
  | stageCreate (relationOid : ℕ) (key : RemoteTableKey) (runtimeConfig : C)
      (staged : Except IcebergFdwError (StagedTableCreate B))
  | dropStagedRelation (relationOid : ℕ)
  | stageBatch (key : RemoteTableKey) (batch : TxWriteBatch T)
  | invalidateCatalogs (hits : CatalogAccessIdentity → Bool)
  | start
  | release
  | abort

structure ForeignTransaction (T : Provider) (B C : Type) where
  nestLevel : ℕ
  inner : ForeignTransactionInner T B C

/-- The machine with full copies of the tables. -/
structure ReferenceTransaction (T : Provider) (B C : Type) where
  catalogs : Catalogs C
  tables : Reference (TablesView T B)

open ReferenceTransaction

section Machines

variable [DecidableEq C]

namespace ForeignTransaction

/-- The transaction is first touched below `depth` open subtransactions. -/
def new (depth : ℕ) : ForeignTransaction T B C := ⟨depth + 1, ⟨[], []⟩⟩

def step (tx : ForeignTransaction T B C) : ForeignEvent T B C → ForeignTransaction T B C
  | .stageCreate relationOid key runtimeConfig staged =>
    match tx.inner.stageCreate relationOid tx.nestLevel key ⟨key.catalog, runtimeConfig⟩ staged with
    | .ok inner => { tx with inner := inner }
    | .error _ => tx
  | .dropStagedRelation relationOid =>
    ⟨tx.nestLevel, tx.inner.catalogs,
      (tx.inner.tables.dropStagedRelation relationOid tx.nestLevel).1⟩
  | .stageBatch key batch =>
    ⟨tx.nestLevel, tx.inner.catalogs, (tx.inner.tables.stageBatch key tx.nestLevel batch).1⟩
  | .invalidateCatalogs hits =>
    ⟨tx.nestLevel, tx.inner.catalogs.invalidate hits, tx.inner.tables⟩
  | .start => { tx with nestLevel := tx.nestLevel + 1 }
  | .release =>
    if 2 ≤ tx.nestLevel then
      ⟨tx.nestLevel - 1, tx.inner.catalogs, tx.inner.tables.promoteToLevel tx.nestLevel⟩
    else tx
  | .abort =>
    if 2 ≤ tx.nestLevel then
      ⟨tx.nestLevel - 1, tx.inner.catalogs, tx.inner.tables.rollbackToLevel tx.nestLevel⟩
    else tx

def run (depth : ℕ) (events : List (ForeignEvent T B C)) : ForeignTransaction T B C :=
  events.foldl step (new depth)

end ForeignTransaction

namespace ReferenceTransaction

def new (depth : ℕ) : ReferenceTransaction T B C := ⟨[], .entered [] depth⟩

/-- A creation that the catalog or its session refuses changes nothing. -/
def step (r : ReferenceTransaction T B C) : ForeignEvent T B C → ReferenceTransaction T B C
  | .stageCreate relationOid key runtimeConfig staged =>
    match r.catalogs.validate ⟨key.catalog, runtimeConfig⟩, staged with
    | .ok (), .ok staged =>
      if admitsCreate (r.tables.current.disposition key) then
        ⟨r.catalogs.enroll ⟨key.catalog, runtimeConfig⟩,
          r.tables.step Operation.apply (.act (.create key relationOid staged))⟩
      else r
    | _, _ => r
  | .dropStagedRelation relationOid =>
    { r with tables := r.tables.step Operation.apply (.act (.drop relationOid)) }
  | .stageBatch key batch =>
    { r with tables := r.tables.step Operation.apply (.act (.batch key batch)) }
  | .invalidateCatalogs hits => { r with catalogs := r.catalogs.invalidate hits }
  | .start => { r with tables := r.tables.step Operation.apply .start }
  | .release => { r with tables := r.tables.step Operation.apply .release }
  | .abort => { r with tables := r.tables.step Operation.apply .abort }

def run (depth : ℕ) (events : List (ForeignEvent T B C)) : ReferenceTransaction T B C :=
  events.foldl step (new depth)

end ReferenceTransaction

end Machines

variable (tables : TablesView T B)

/-- No generation has created a file of the batch before. -/
def TablesView.Fresh (batch : TxWriteBatch T) : Prop :=
  ∀ entry ∈ tables, ∀ generation ∈ entry.2.generations,
    ∀ path ∈ namedPaths generation.log, path ∉ T.createdFilePaths batch.delta

instance (tables : TablesView T B) (batch : TxWriteBatch T) : Decidable (tables.Fresh batch) :=
  inferInstanceAs (Decidable (∀ entry ∈ tables, ∀ generation ∈ entry.2.generations,
    ∀ path ∈ namedPaths generation.log, path ∉ T.createdFilePaths batch.delta))

namespace ReferenceTransaction

/-- PostgreSQL drops a relation only while it exists. -/
def Drops (r : ReferenceTransaction T B C) : ForeignEvent T B C → Prop
  | .dropStagedRelation relationOid => r.tables.current.Droppable relationOid
  | _ => True

/-- A written file has a name of its own. -/
def NamesFresh (r : ReferenceTransaction T B C) : ForeignEvent T B C → Prop
  | .stageBatch _ batch => r.tables.current.Fresh batch
  | _ => True

def Always [DecidableEq C] (allows : ReferenceTransaction T B C → ForeignEvent T B C → Prop) :
    ReferenceTransaction T B C → List (ForeignEvent T B C) → Prop
  | _, [] => True
  | r, event :: rest => allows r event ∧ Always allows (r.step event) rest

end ReferenceTransaction

open ReferenceTransaction (Drops NamesFresh)

/-! ## The tables of the reference machine -/

/-- One server and one remote table, whatever the role. -/
abbrev SameTarget (a b : RemoteTableKey) : Prop :=
  a.catalog.serverOid = b.catalog.serverOid ∧ a.table = b.table

lemma SameTarget.symm {a b : RemoteTableKey} (h : SameTarget a b) : SameTarget b a :=
  ⟨h.1.symm, h.2.symm⟩

def DisjointFiles (a b : GenerationView T B) : Prop :=
  List.Disjoint (namedPaths a.log) (namedPaths b.log)

/-- Two tables of the transaction; their files differ if every batch is `fresh`. -/
structure Apart (fresh : Prop) (a b : RemoteTableKey × StateView T B) : Prop where
  keys : a.1 ≠ b.1
  active : SameTarget a.1 b.1 → a.2.current.isActive = true → b.2.current.isActive = false
  files : fresh → ∀ g ∈ a.2.generations, ∀ g' ∈ b.2.generations, DisjointFiles g g'

variable {fresh : Prop} {a b : RemoteTableKey × StateView T B}

lemma Apart.symm (h : Apart fresh a b) : Apart fresh b a where
  keys := h.keys.symm
  active ht ha := by
    cases ho : a.2.current.isActive with
    | false => rfl
    | true =>
      have hnot := h.active ht.symm ho
      rw [ha] at hnot
      exact absurd hnot (by simp)
  files hfr g hg g' hg' := (h.files hfr g' hg' g hg).symm

structure Separated (fresh : Prop) (tables : TablesView T B) : Prop where
  entries : tables.Pairwise (Apart fresh)
  generations : fresh → ∀ entry ∈ tables, entry.2.generations.Pairwise DisjointFiles
  retired : ∀ entry ∈ tables, ∀ g ∈ entry.2.superseded, g.isActive = false

/-- The files of `state'` are those of `state` and some of `files`. -/
def Names (files : List String) (state state' : StateView T B) : Prop :=
  ∀ g' ∈ state'.generations, ∀ path ∈ namedPaths g'.log,
    path ∈ files ∨ ∃ g ∈ state.generations, path ∈ namedPaths g.log

lemma Apart.setLeft (h : Apart fresh a b)
    {s : StateView T B} {files : List String} (hn : Names files a.2 s)
    (hf : fresh → ∀ g ∈ b.2.generations, List.Disjoint (namedPaths g.log) files)
    (ha : SameTarget a.1 b.1 → s.current.isActive = true →
      a.2.current.isActive = true ∨ b.2.current.isActive = false) : Apart fresh (a.1, s) b where
  keys := h.keys
  active ht hs := by
    rcases ha ht hs with ho | hoth
    · exact h.active ht ho
    · exact hoth
  files hfr g hg g' hg' path hp hp' := by
    rcases hn g hg path hp with hnew | ⟨o, ho, hpo⟩
    · exact hf hfr g' hg' hp' hnew
    · exact h.files hfr o ho g' hg' hpo hp'

variable {ts : TablesView T B} {key : RemoteTableKey}

section

variable (h : Separated fresh ts) (fs : List String)
  (hf : fresh → ∀ entry ∈ ts, ∀ g ∈ entry.2.generations, List.Disjoint (namedPaths g.log) fs)

include h hf

lemma Separated.modify {f : StateView T B → StateView T B}
    (hna : ∀ e ∈ ts, e.1 = key → Names fs e.2 (f e.2))
    (hac : ∀ e ∈ ts, e.1 = key → (f e.2).current.isActive = true → e.2.current.isActive = true ∨
      ∀ o ∈ ts, SameTarget o.1 key → o.2.current.isActive = false)
    (hg : fresh → ∀ e ∈ ts, e.1 = key → (f e.2).generations.Pairwise DisjointFiles)
    (hr : ∀ e ∈ ts, e.1 = key → ∀ g ∈ (f e.2).superseded, g.isActive = false) :
    Separated fresh (modifyEntry key f ts) where
  entries := by
    -- two entries of one key cannot both change, since the keys differ
    have hl {a b : RemoteTableKey × StateView T B} (ha : a ∈ ts) (hb : b ∈ ts)
        (hk : a.1 = key) (hap : Apart fresh a b) : Apart fresh (a.1, f a.2) b := by
      refine hap.setLeft (hna a ha hk) (fun hfr => hf hfr b hb) fun ht hs => ?_
      rcases hac a ha hk hs with ho | hoth
      · exact .inl ho
      · exact .inr (hoth b hb (hk ▸ ht.symm))
    refine pairwise_map.mpr (h.entries.imp_of_mem fun {a b} ha hb hap => ?_)
    by_cases hka : a.1 = key
    · have hkb : b.1 ≠ key := fun hkb => hap.keys (hka.trans hkb.symm)
      rw [if_pos hka, if_neg hkb]
      exact hl ha hb hka hap
    · rw [if_neg hka]
      by_cases hkb : b.1 = key
      · rw [if_pos hkb]
        exact (hl hb ha hkb hap.symm).symm
      · rw [if_neg hkb]
        exact hap
  generations hfr e he := by
    obtain ⟨l, ho, -, ⟨hk, hn⟩ | ⟨-, hn⟩⟩ := mem_modifyEntry he
    · rw [hn]
      exact hg hfr l ho hk
    · rw [hn]
      exact h.generations hfr l ho
  retired e he := by
    obtain ⟨l, ho, -, ⟨hk, hn⟩ | ⟨-, hn⟩⟩ := mem_modifyEntry he
    · rw [hn]
      exact hr l ho hk
    · rw [hn]
      exact h.retired l ho

lemma Separated.mapCurrent {f : GenerationView T B → GenerationView T B}
    (hn : ∀ g : GenerationView T B, ∀ path ∈ namedPaths (f g).log,
      path ∈ fs ∨ path ∈ namedPaths g.log)
    (ha : ∀ g : GenerationView T B, (f g).isActive = true → g.isActive = true) :
    Separated fresh (modifyEntry key (·.mapCurrent f) ts) := by
  refine h.modify fs hf (fun e _ _ => ?_) (fun e _ _ hs => ?_) (fun hfr e he _ => ?_)
    (fun e he _ => ?_)
  · intro g hg path hp
    rcases mem_cons.mp hg with rfl | hg
    · rcases hn e.2.current path hp with hnew | ho
      · exact .inl hnew
      · exact .inr ⟨e.2.current, mem_cons_self, ho⟩
    · exact .inr ⟨g, mem_cons_of_mem _ hg, hp⟩
  · exact .inl (ha e.2.current hs)
  · have hpa := pairwise_cons.mp (h.generations hfr e he)
    refine pairwise_cons.mpr ⟨fun g hg path hp hp' => ?_, hpa.2⟩
    rcases hn e.2.current path hp with hnew | ho
    · exact hf hfr e he g (mem_cons_of_mem _ hg) hp' hnew
    · exact hpa.1 g hg ho hp'
  · exact h.retired e he

end

variable {path : String}

lemma namedPaths_written (w : TxWriteBatch T) (g : GenerationView T B)
    (h : path ∈ namedPaths (g.written w).log) :
    path ∈ T.createdFilePaths w.delta ∨ path ∈ namedPaths g.log :=
  (namedPaths_apply (F := Unit) (.stage (.batch w)) ⟨g.log, false⟩ h).symm

lemma namedPaths_dropped (g : GenerationView T B) (h : path ∈ namedPaths g.dropped.log) :
    path ∈ namedPaths g.log := by
  have hn := namedPaths_apply (F := Unit) (.stage .drop) ⟨g.log, false⟩ h
  simpa [operationPaths] using hn

lemma dispositionAmong_published (key : RemoteTableKey)
    (es : List (RemoteTableKey × StagedCreateDisposition)) :
    admitsCreate (dispositionAmong key es (some .published)) = false := by
  induction es with
  | nil => rfl
  | cons entry r ih =>
    obtain ⟨e, s⟩ := entry
    by_cases hm : SameTarget e key
    · cases s with
      | activeStaged => simp only [dispositionAmong, if_pos hm, admitsCreate]
      | published => simpa only [dispositionAmong, if_pos hm] using ih
      | replaceDropped => simpa only [dispositionAmong, if_pos hm, Option.getD_some] using ih
    · simpa only [dispositionAmong, if_neg hm] using ih

lemma dispositionAmong_admits {es : List (RemoteTableKey × StagedCreateDisposition)}
    {d : Option StagedCreateDisposition} (h : admitsCreate (dispositionAmong key es d) = true) :
    ∀ entry ∈ es, SameTarget entry.1 key → entry.2 = .replaceDropped := by
  induction es generalizing d with
  | nil => simp
  | cons entry r ih =>
    obtain ⟨e, s⟩ := entry
    by_cases hm : SameTarget e key
    · cases s with
      | activeStaged =>
        simp only [dispositionAmong, if_pos hm, admitsCreate] at h
        exact absurd h (by simp)
      | published =>
        simp only [dispositionAmong, if_pos hm, dispositionAmong_published] at h
        exact absurd h (by simp)
      | replaceDropped =>
        simp only [dispositionAmong, if_pos hm] at h
        exact forall_mem_cons.mpr ⟨fun _ => rfl, ih h⟩
    · simp only [dispositionAmong, if_neg hm] at h
      exact forall_mem_cons.mpr ⟨fun ht => absurd ht hm, ih h⟩

lemma inactive_of_admits (h : admitsCreate (ts.disposition key) = true) :
    ∀ e ∈ ts, SameTarget e.1 key → e.2.current.isActive = false := by
  intro e he ht
  have hd := dispositionAmong_admits h (e.1, e.2.disposition) (mem_map_of_mem he) ht
  simp only [disposition] at hd
  simp only [isActive]
  cases ho : e.2.current.owner with
  | none => rfl
  | some o =>
    cases ha : o.active with
    | false => simp [ha]
    | true => simp [ho, ha] at hd

lemma disjointFiles_staged (o : ℕ) (s : StagedTableCreate B)
    (g : GenerationView T B) : DisjointFiles (.staged o s) g := by
  intro path hp
  simp [staged, namedPaths, TxTableActionLog.empty] at hp

lemma Separated.create (h : Separated fresh ts) (key : RemoteTableKey) (i : ℕ)
    (s : StagedTableCreate B) : Separated fresh (ts.create key i s) := by
  unfold TablesView.create
  split_ifs with hadm ho
  · have hi := inactive_of_admits hadm
    refine h.modify [] (by simp) (fun e _ _ => ?_) (fun e _ _ _ => .inr hi)
      (fun hfr e he _ => ?_) (fun e he hk => ?_)
    · intro g hg path hp
      rcases mem_cons.mp hg with rfl | hg
      · exact absurd hp (by
          simp [replaced, staged, namedPaths, TxTableActionLog.empty])
      · exact .inr ⟨g, hg, hp⟩
    · exact pairwise_cons.mpr ⟨fun g _ => disjointFiles_staged i s g, h.generations hfr e he⟩
    · refine forall_mem_cons.mpr ⟨?_, h.retired e he⟩
      exact hi e he (hk ▸ ⟨rfl, rfl⟩)
  · have hi := inactive_of_admits hadm
    refine ⟨pairwise_append.mpr ⟨h.entries, pairwise_singleton _ _, ?_⟩,
      fun hfr => forall_mem_append.mpr ⟨h.generations hfr, by simp [StateView.generations]⟩,
      forall_mem_append.mpr ⟨h.retired, by simp⟩⟩
    intro e he o hot
    rw [mem_singleton] at hot
    subst hot
    refine ⟨fun hk => ho ?_, fun ht ha => ?_, fun _ g _ g' hg' => ?_⟩
    · exact any_eq_true.mpr ⟨e, he, by simpa using hk⟩
    · rw [hi e he ht] at ha
      exact absurd ha (by simp)
    · rw [StateView.generations, mem_singleton] at hg'
      subst hg'
      exact (disjointFiles_staged i s g).symm
  · exact h

lemma Separated.drop (h : Separated fresh ts) (i : ℕ) : Separated fresh (ts.drop i) := by
  unfold TablesView.drop
  cases ts.ownerOf i with
  | none => exact h
  | some o =>
    refine h.mapCurrent [] (by simp) (fun g path hp => ?_) (fun g ha => ?_)
    · split_ifs at hp with ho
      · exact .inr (namedPaths_dropped g hp)
      · exact .inr hp
    · split_ifs at ha with ho
      · simp [isActive, dropped, Option.any_map] at ha
      · exact ha

lemma Separated.write (h : Separated fresh ts) (key : RemoteTableKey) {b : TxWriteBatch T}
    (hf : fresh → ts.Fresh b) : Separated fresh (ts.write key b) :=
  h.mapCurrent (T.createdFilePaths b.delta) (fun hfr e he g hg path hp => hf hfr e he g hg path hp)
    (fun g _ hp => namedPaths_written b g hp) fun _ ha => ha

/-! ## Runs -/

/-- The two machines show the same tables, and every table state an abort can restore is
separated. -/
structure Agrees (fresh : Prop) (tx : ForeignTransaction T B C) (r : ReferenceTransaction T B C) :
    Prop where
  catalogs : tx.inner.catalogs = r.catalogs
  tables : (stagedTables T B).Matches ⟨tx.nestLevel, tx.inner.tables⟩ r.tables
  separated : r.tables.All (Separated fresh)

lemma Agrees.new (d : ℕ) :
    Agrees fresh (ForeignTransaction.new d : ForeignTransaction T B C) (.new d) where
  catalogs := rfl
  tables := Component.Matches.entered (c := stagedTables T B) ([] : Tables T B) d (by
    intro entry he
    cases he) fun _ => rfl
  separated := Reference.All.entered ⟨List.Pairwise.nil, by simp, by simp⟩ d

variable {tx : ForeignTransaction T B C} {r : ReferenceTransaction T B C}

/-- An admitted operation is the step of the component. -/
lemma Agrees.act (h : Agrees fresh tx r) (op : Operation T B) (ha : op.Admitted r.tables.current)
    (hs : Separated fresh (op.apply r.tables.current)) (cs : Catalogs C) :
    Agrees fresh (⟨tx.nestLevel, cs, op.act tx.nestLevel tx.inner.tables⟩ :
      ForeignTransaction T B C) ⟨cs, r.tables.step Operation.apply (.act op)⟩ := by
  have hv : tx.inner.tables.view = r.tables.current := h.tables.current
  have hm := h.tables.act op
  have hac : (stagedTables T B).step ⟨tx.nestLevel, tx.inner.tables⟩ (.act op) =
      ⟨tx.nestLevel, op.act tx.nestLevel tx.inner.tables⟩ := by
    simp only [Component.step, stagedTables, hv, if_pos ha]
  have hap : r.tables.step (stagedTables T B).apply (.act op) =
      r.tables.step Operation.apply (.act op) := by
    simp only [Reference.step, stagedTables, if_pos ha]
  rw [hac, hap] at hm
  refine ⟨rfl, hm, h.separated.step (.act op) fun op' ho => ?_⟩
  obtain rfl := Event.act.inj ho
  exact hs

lemma Agrees.savepoint (h : Agrees fresh tx r) (e : Event (Operation T B))
    (he : ∀ op, e ≠ .act op) {s : Session (Tables T B)}
    (hs : (stagedTables T B).step ⟨tx.nestLevel, tx.inner.tables⟩ e = s) :
    Agrees fresh (⟨s.level, tx.inner.catalogs, s.state⟩ : ForeignTransaction T B C)
      { r with tables := r.tables.step Operation.apply e } := by
  have hsa : r.tables.step (stagedTables T B).apply e = r.tables.step Operation.apply e := by
    cases e with
    | act op => exact absurd rfl (he op)
    | start => rfl
    | release => rfl
    | abort => rfl
  refine ⟨h.catalogs, ?_, h.separated.step e fun op ho => absurd ho (he op)⟩
  have hm := h.tables.step e
  rwa [hsa, hs] at hm

section Runs

variable [DecidableEq C]

/-- A creation is staged only if the session is valid, no owner stands in the way and the
catalog agrees. -/
lemma stageCreate_cases (i : ForeignTransactionInner T B C) (o l : ℕ) (key : RemoteTableKey)
    (e : CatalogSession C) (s : Except IcebergFdwError (StagedTableCreate B)) :
    (∃ d, i.catalogs.validate e = .ok () ∧ s = .ok d ∧
        admitsCreate (i.tables.stagedCreateDisposition key) = true ∧
        i.stageCreate o l key e s = .ok ⟨i.catalogs.enroll e, i.tables.insertStaged key o l d⟩) ∨
      (∃ error, i.stageCreate o l key e s = .error error) ∧
        ∀ d, i.catalogs.validate e = .ok () → s = .ok d →
          admitsCreate (i.tables.stagedCreateDisposition key) = false := by
  unfold ForeignTransactionInner.stageCreate
  cases i.catalogs.validate e with
  | error error => exact .inr ⟨⟨error, rfl⟩, by simp⟩
  | ok v =>
    cases s with
    | error error =>
      rcases i.tables.stagedCreateDisposition key with _ | _ | _ | _
      all_goals exact .inr ⟨⟨_, rfl⟩, by simp⟩
    | ok d =>
      rcases i.tables.stagedCreateDisposition key with _ | _ | _ | _
      · exact .inl ⟨d, rfl, rfl, rfl, rfl⟩
      · exact .inr ⟨⟨_, rfl⟩, by simp [admitsCreate]⟩
      · exact .inr ⟨⟨_, rfl⟩, by simp [admitsCreate]⟩
      · exact .inl ⟨d, rfl, rfl, rfl, rfl⟩

variable {tx : ForeignTransaction T B C} {r : ReferenceTransaction T B C}

lemma Agrees.stageCreate (h : Agrees fresh tx r) (o : ℕ) (key : RemoteTableKey)
    (c : C) (s : Except IcebergFdwError (StagedTableCreate B)) :
    Agrees fresh (tx.step (.stageCreate o key c s)) (r.step (.stageCreate o key c s)) := by
  have hd : r.tables.current.disposition key = tx.inner.tables.stagedCreateDisposition key := by
    rw [← Tables.view_disposition]
    exact congrArg (TablesView.disposition · key) h.tables.current.symm
  simp only [ForeignTransaction.step, step, ← h.catalogs, hd]
  rcases stageCreate_cases tx.inner o tx.nestLevel key ⟨key.catalog, c⟩
      s with ⟨d, hv, rfl, ha, hs⟩ | ⟨⟨error, hs⟩, hr⟩
  · have hac := h.act (.create key o d) trivial (h.separated.current.create key o d)
      (tx.inner.catalogs.enroll ⟨key.catalog, c⟩)
    simp only [Operation.act, if_pos ha] at hac
    rw [hs, hv]
    simpa only [if_pos ha] using hac
  · rw [hs]
    dsimp only
    split
    · rename_i d hv
      rw [hr d hv rfl, if_neg (by simp)]
      exact h
    · exact h

lemma Agrees.step (h : Agrees fresh tx r) (e : ForeignEvent T B C) (hd : r.Drops e)
    (hf : fresh → r.NamesFresh e) : Agrees fresh (tx.step e) (r.step e) := by
  cases e with
  | stageCreate o key c s => exact h.stageCreate o key c s
  | dropStagedRelation o =>
    simp only [ForeignTransaction.step, ReferenceTransaction.step, h.catalogs]
    exact h.act (.drop o) hd (h.separated.current.drop o) r.catalogs
  | stageBatch key b =>
    simp only [ForeignTransaction.step, ReferenceTransaction.step, h.catalogs]
    exact h.act (.batch key b) trivial (h.separated.current.write key hf) r.catalogs
  | invalidateCatalogs hi =>
    refine ⟨?_, h.tables, h.separated⟩
    exact congrArg (Catalogs.invalidate · hi) h.catalogs
  | start => exact h.savepoint .start (by simp) rfl
  | release | abort =>
    simp only [ForeignTransaction.step, ReferenceTransaction.step]
    have hr := h.savepoint .release (by simp) rfl
    have ha := h.savepoint .abort (by simp) rfl
    simp only [Component.step] at hr ha
    split_ifs at hr ha ⊢ with hl
    all_goals first
      | exact hr
      | exact ha

lemma Agrees.run (h : Agrees fresh tx r) (es : List (ForeignEvent T B C))
    (hd : r.Always Drops es) (hf : fresh → r.Always NamesFresh es) :
    Agrees fresh (es.foldl ForeignTransaction.step tx) (es.foldl ReferenceTransaction.step r) := by
  induction es generalizing tx r with
  | nil => exact h
  | cons e rest ih =>
    exact ih (h.step e hd.1 fun hfr => (hf hfr).1) hd.2 fun hfr => (hf hfr).2

end Runs

/-! ## Canceled files -/

lemma createdFilePaths_spec (laws : CreatedLaws T) {log : TxTableActionLog T}
    (hv : ValidEpochs log.actions) {ps : List String}
    (h : createdFilePaths log = .ok ps) (path : String) : path ∈ ps ↔ path ∈ namedPaths log := by
  obtain ⟨c, hc, h⟩ := bind_eq_ok h
  cases h
  have hf := foldlM_eq_ok (I := fun done ps =>
    path ∈ ps ↔ path ∈ done.flatMap (actionPaths (T := T)))
    (fun a ha done ps p' hdo hs => ?_) [] (by simp) hc
  · simpa [namedPaths] using hf
  · rw [flatMap_append, mem_append, ← hdo]
    cases a with
    | data e =>
      obtain ⟨d, hd, hs⟩ := bind_eq_ok hs
      cases hs
      rw [(hv e ha).delta_fst] at hd
      simp [created_buildDelta laws hd, actionPaths]
    | schema update | properties update | truncate a | exclusive a | drop =>
      cases hs
      simp [actionPaths]

def StateView.canceled (state : StateView T B) : List (GenerationView T B) :=
  state.superseded ++ if state.current.owner.any (fun owner => !owner.active) then [state.current]
    else []

lemma mem_canceled_view {state : ForeignTableState T B} :
    (∃ g ∈ state.canceledGenerations, path ∈ namedPaths g.transaction.actions) ↔
      ∃ g ∈ state.view.canceled, path ∈ namedPaths g.log := by
  have hc : (state.current.isStagedCreate && !state.current.hasActiveStagedRelation) =
      state.view.current.owner.any fun owner => !owner.active := by
    obtain ⟨⟨base, origin, transaction⟩, superseded⟩ := state
    cases origin <;> rfl
  have hs :
      (∃ g ∈ state.superseded.reverse.map (·.generation), path ∈ namedPaths g.transaction.actions) ↔
        ∃ g ∈ state.view.superseded, path ∈ namedPaths g.log := by
    simp [ForeignTableState.view, ForeignTableGeneration.view]
  have hl : path ∈ namedPaths state.view.current.log ↔
      path ∈ namedPaths state.current.transaction.actions := by
    simp [ForeignTableState.view, ForeignTableGeneration.view]
  unfold ForeignTableState.canceledGenerations canceled
  simp only [mem_append, or_and_right, exists_or, hs]
  by_cases hd : (state.current.isStagedCreate && !state.current.hasActiveStagedRelation) = true
  · rw [if_pos hd, if_pos (hc ▸ hd)]
    simp [hl]
  · rw [if_neg hd, if_neg (hc ▸ hd)]
    simp

section

variable (laws : CreatedLaws T) {fileIo : B → F} {l : ℕ} {fs : List (F × List String)}
  (path : String)

include laws

lemma canceledFiles_state {s : ForeignTableState T B} (h : s.Bounded l)
    (hf : s.canceledFiles fileIo = .ok fs) :
    (∃ group ∈ fs, path ∈ group.2) ↔ ∃ g ∈ s.view.canceled, path ∈ namedPaths g.log := by
  rw [← mem_canceled_view]
  have hv : ∀ g ∈ s.canceledGenerations, ValidEpochs g.transaction.actions.actions := by
    intro g hg
    rcases mem_append.mp hg with hg | hg
    · obtain ⟨entry, he, rfl⟩ := mem_map.mp hg
      exact (h.retired entry (mem_reverse.mp he)).caches.epochs
    · split_ifs at hg with hd
      · rw [mem_singleton] at hg
        rw [hg]
        exact h.current.caches.epochs
      · cases hg
  constructor
  · rintro ⟨group, hgr, hpa⟩
    obtain ⟨g, hg, hc⟩ := (mapM_eq_ok hf group).mp hgr
    obtain ⟨p, hp, hgr⟩ := bind_eq_ok hc
    cases hgr
    exact ⟨g, hg, (createdFilePaths_spec laws (hv g hg) hp path).mp hpa⟩
  · rintro ⟨g, hg, hpa⟩
    obtain ⟨group, hgr⟩ := mapM_ok_of_mem hf hg
    obtain ⟨p, hp, hs⟩ := bind_eq_ok hgr
    cases hs
    exact ⟨_, (mapM_eq_ok hf _).mpr ⟨g, hg, hgr⟩,
      (createdFilePaths_spec laws (hv g hg) hp path).mpr hpa⟩

/-- The files reported at commit are those of the canceled generations. -/
lemma canceledFiles_tables {ts : Tables T B} (h : ts.Bounded l)
    (hf : ts.canceledFiles fileIo = .ok fs) :
    (∃ group ∈ fs, path ∈ group.2) ↔
      ∃ e ∈ ts.view, ∃ g ∈ e.2.canceled, path ∈ namedPaths g.log := by
  obtain ⟨c, hc, hf⟩ := bind_eq_ok hf
  cases hf
  have hfo := foldlM_eq_ok (I := fun d (fs : List (F × List String)) =>
    (∃ group ∈ fs, path ∈ group.2) ↔
      ∃ e ∈ Tables.view d, ∃ g ∈ e.2.canceled, path ∈ namedPaths g.log)
    (fun e he d fs f' hd hs => ?_) [] (by simp [Tables.view]) hc
  · rw [nil_append] at hfo
    rw [← hfo]
    constructor
    · rintro ⟨group, hg, hp⟩
      exact ⟨group, mem_of_mem_filter hg, hp⟩
    · rintro ⟨group, hg, hp⟩
      refine ⟨group, mem_filter.mpr ⟨hg, ?_⟩, hp⟩
      simpa using ne_nil_of_mem hp
  · obtain ⟨m, hm, hs⟩ := bind_eq_ok hs
    cases hs
    have hst := canceledFiles_state laws path (h e he) hm
    simp only [Tables.view, map_append, map_cons, map_nil, mem_append,
      or_and_right, exists_or, mem_singleton, exists_eq_left] at hd ⊢
    rw [hd, hst]

end

/-! ## What every run keeps -/

/-- The active generations of one remote table under all roles. -/
def activeGenerations (serverOid : ℕ) (table : String) :
    List (GenerationView T B) :=
  (tables.filter fun entry =>
    entry.1.catalog.serverOid == serverOid && entry.1.table == table).flatMap
      fun entry => entry.2.generations.filter GenerationView.isActive

lemma length_le_one_of_pairwise {α : Type*} {ts : List α}
    (h : ts.Pairwise fun _ _ => False) : ts.length ≤ 1 := by
  match ts, h with
  | [], _ => simp
  | [_], _ => simp
  | a :: b :: rest, h => exact absurd (rel_of_pairwise_cons h mem_cons_self) id

lemma Separated.oneActive (h : Separated fresh ts) (s : ℕ) (t : String) :
    (activeGenerations ts s t).length ≤ 1 := by
  have hc {e : RemoteTableKey × StateView T B} (he : e ∈ ts)
      {g : GenerationView T B} (hg : g ∈ e.2.generations.filter isActive) :
      g = e.2.current ∧ e.2.current.isActive = true := by
    obtain ⟨hm, hac⟩ := mem_filter.mp hg
    rcases mem_cons.mp hm with rfl | hm
    · exact ⟨rfl, hac⟩
    · rw [h.retired e he g hm] at hac
      exact absurd hac (by simp)
  refine length_le_one_of_pairwise (pairwise_flatMap.mpr ⟨fun e he => ?_, ?_⟩)
  · have hm := mem_of_mem_filter he
    have hn : e.2.superseded.filter isActive = [] := by
      rw [filter_eq_nil_iff]
      intro g hg
      rw [h.retired e hm g hg]
      simp
    rw [StateView.generations, filter_cons, hn]
    split_ifs <;> simp
  · refine (h.entries.filter _).imp_of_mem fun {a b} ha hb hap g hg g' hg' => ?_
    obtain ⟨hma, hta⟩ := mem_filter.mp ha
    obtain ⟨hmb, htb⟩ := mem_filter.mp hb
    simp only [Bool.and_eq_true, beq_iff_eq] at hta htb
    have ht : SameTarget a.1 b.1 := ⟨hta.1.trans htb.1.symm, hta.2.trans htb.2.symm⟩
    have hnot := hap.active ht (hc hma hg).2
    rw [(hc hmb hg').2] at hnot
    exact absurd hnot (by simp)

lemma Separated.canceled_disjoint (h : Separated fresh ts) (hfr : fresh)
    {e other : RemoteTableKey × StateView T B} (he : e ∈ ts)
    (hot : other ∈ ts) {g g' : GenerationView T B} (hg : g ∈ e.2.generations)
    (ha : g.isActive = true) (hg' : g' ∈ other.2.canceled) : DisjointFiles g g' := by
  have hc : g = e.2.current := by
    rcases mem_cons.mp hg with hs | hm
    · exact hs
    · rw [h.retired e he g hm] at ha
      exact absurd ha (by simp)
  have hm' : g' ∈ other.2.superseded ∨ g' = other.2.current ∧ g'.isActive = false := by
    rcases mem_append.mp hg' with hm | hm
    · exact .inl hm
    · split_ifs at hm with hd
      · rw [mem_singleton] at hm
        refine .inr ⟨hm, ?_⟩
        rw [← hm] at hd
        cases ho : g'.owner with
        | none => simp [isActive, ho]
        | some o => simpa [isActive, ho] using hd
      · cases hm
  by_cases hs : e = other
  · subst hs
    rcases hm' with hm | ⟨rfl, hi⟩
    · rw [hc]
      exact rel_of_pairwise_cons (h.generations hfr e he) hm
    · rw [hc, hi] at ha
      exact absurd ha (by simp)
  · have : Std.Symm (Apart (T := T) (B := B) fresh) := ⟨fun _ _ hap => hap.symm⟩
    have hap : Apart fresh e other := h.entries.forall he hot hs
    refine hap.files hfr g hg g' ?_
    rcases hm' with hm | ⟨rfl, -⟩
    · exact mem_cons_of_mem _ hm
    · exact mem_cons_self

/-- What a transaction keeps of its staged creations, compared with the machine that
copies them at every subtransaction. -/
structure StagedCreatesKept (fileIo : B → F) (tx : ForeignTransaction T B C)
    (r : ReferenceTransaction T B C) : Prop where
  level : tx.nestLevel = r.tables.copies.length + 1
  tables : tx.inner.tables.view = r.tables.current
  oneActive : ∀ serverOid table,
    (activeGenerations tx.inner.tables.view serverOid table).length ≤ 1
  canceled : ∀ files, tx.inner.preparePublication fileIo = .ok files → ∀ path,
    (∃ group ∈ files, path ∈ group.2) ↔
      ∃ entry ∈ tx.inner.tables.view, ∃ g ∈ entry.2.canceled, path ∈ namedPaths g.log

/-- No file of an active generation is reported as canceled. -/
def ActiveKept (fileIo : B → F) (tx : ForeignTransaction T B C) : Prop :=
  ∀ files, tx.inner.preparePublication fileIo = .ok files →
    ∀ entry ∈ tx.inner.tables.view, ∀ g ∈ entry.2.generations, g.isActive = true →
      ∀ path ∈ namedPaths g.log, ∀ group ∈ files, path ∉ group.2

lemma Agrees.kept (h : Agrees fresh tx r) (laws : CreatedLaws T) (fileIo : B → F) :
    StagedCreatesKept fileIo tx r ∧ (fresh → ActiveKept fileIo tx) := by
  have hv : tx.inner.tables.view = r.tables.current := h.tables.current
  have hs : Separated fresh tx.inner.tables.view := hv ▸ h.separated.current
  have hc (fs : List (F × List String))
      (hf : tx.inner.preparePublication fileIo = .ok fs) (path : String) :
      (∃ gr ∈ fs, path ∈ gr.2) ↔
        ∃ e ∈ tx.inner.tables.view, ∃ g ∈ e.2.canceled, path ∈ namedPaths g.log := by
    unfold ForeignTransactionInner.preparePublication at hf
    split_ifs at hf with hi
    have hco : tx.inner.tables.canceledFiles fileIo = .ok fs := by
      cases hr : tx.inner.tables.canceledFiles fileIo with
      | error error =>
        rw [hr] at hf
        cases hf
      | ok c =>
        rw [hr] at hf
        exact congrArg Except.ok (Except.ok.inj hf)
    exact canceledFiles_tables laws path h.tables.inv hco
  refine ⟨⟨h.tables.level, hv, hs.oneActive, hc⟩, ?_⟩
  intro hfr fs hf e he g hg ha path hp gr hgr hcon
  obtain ⟨o, ho, g', hg', hp'⟩ := (hc fs hf path).mp ⟨gr, hgr, hcon⟩
  exact hs.canceled_disjoint hfr he ho hg ha hg' hp hp'

/-- A run in which PostgreSQL drops no relation twice; that active generations keep their
files needs new names for them as well. -/
theorem run_stagedCreatesKept [DecidableEq C] (laws : CreatedLaws T) (fileIo : B → F) (depth : ℕ)
    (events : List (ForeignEvent T B C))
    (h : (new depth).Always Drops events) :
    StagedCreatesKept fileIo (ForeignTransaction.run depth events)
        (run depth events) ∧
      ((new depth).Always NamesFresh events →
        ActiveKept fileIo (ForeignTransaction.run depth events)) :=
  ((Agrees.new depth).run events h id).kept laws fileIo

/-! ## Three runs -/

/-- Deltas that add up. -/
def addedFiles : Provider :=
  { namedFiles with appendDelta := fun a b => .ok (a.1 || b.1, a.2 ++ b.2) }

lemma addedFiles_laws : CreatedLaws addedFiles where
  new := rfl
  append a b c h path := by
    cases h
    exact mem_append

/-- One remote table as two roles see it. -/
def ordersOf (effectiveUser : ℕ) : RemoteTableKey := ⟨⟨1, effectiveUser⟩, "orders"⟩

def ordersBatch : TxWriteBatch addedFiles := ⟨1, (false, ["data/1.parquet"]), none⟩

/-- A role writes its table and drops it in a subtransaction, in which another role
creates the table again; the subtransaction aborts. -/
def recreatedAndAborted : List (ForeignEvent addedFiles String Unit) :=
  [.stageCreate 100 (ordersOf 10) () (.ok ⟨"orders"⟩), .stageBatch (ordersOf 10) ordersBatch,
    .start, .dropStagedRelation 100, .stageCreate 101 (ordersOf 20) () (.ok ⟨"orders"⟩), .abort]

theorem recreatedAndAborted_kept :
    StagedCreatesKept id (ForeignTransaction.run 0 recreatedAndAborted)
        (run 0 recreatedAndAborted) ∧
      ActiveKept id (ForeignTransaction.run 0 recreatedAndAborted) := by
  have hd : (new 0).Always Drops recreatedAndAborted := by
    refine ⟨trivial, trivial, trivial, ?_, trivial, trivial, trivial⟩
    change TablesView.Droppable _ _
    decide
  have hf : (new 0).Always NamesFresh recreatedAndAborted := by
    refine ⟨trivial, ?_, trivial, trivial, trivial, trivial, trivial⟩
    change TablesView.Fresh _ _
    decide
  have hk := run_stagedCreatesKept addedFiles_laws id 0 recreatedAndAborted hd
  exact ⟨hk.1, hk.2 hf⟩

/-- A table created again whose batch names the file of its dropped predecessor: the file
is reported as canceled, although an active generation has it. -/
lemma sharedFile_canceled :
    ¬ActiveKept id (ForeignTransaction.run 0
      [.stageCreate 100 (ordersOf 10) () (.ok ⟨"orders"⟩), .stageBatch (ordersOf 10) ordersBatch,
        .dropStagedRelation 100, .stageCreate 101 (ordersOf 20) () (.ok ⟨"orders"⟩),
        .stageBatch (ordersOf 20) ordersBatch]) := by
  intro h
  exact absurd (h [("orders", ["data/1.parquet"])] (by decide +kernel)) (by decide +kernel)

/-- A relation dropped a second time below a savepoint: the abort clears the level of the
first drop as well, and the relation is active again beside its successor. -/
def droppedTwice : List (ForeignEvent addedFiles String Unit) :=
  [.stageCreate 100 (ordersOf 10) () (.ok ⟨"orders"⟩), .dropStagedRelation 100,
    .stageCreate 101 (ordersOf 20) () (.ok ⟨"orders"⟩), .start, .dropStagedRelation 100, .abort]

theorem droppedTwice_revives :
    (activeGenerations (ForeignTransaction.run 0 droppedTwice).inner.tables.view 1
        "orders").length = 2 ∧
      (activeGenerations (run 0 droppedTwice).tables.current 1
        "orders").length = 1 := by
  decide

end LagoDB.StagedCreates
