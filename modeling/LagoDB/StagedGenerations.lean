import LagoDB.StagedCreates

/-!
# Savepoints of staged creations

What a transaction shows of its staged tables, without levels, and the operations on
it. Each table keeps the levels at which its generations were created, dropped and
replaced; they are ordered that way, and an abort pops replacements before it undoes
the drop of the generation below.
-/
namespace LagoDB.StagedCreates

open ActionLog Savepoint TableState List ForeignTableGeneration TableTransactionState Option

variable {T : Provider} {B : Type}

/-! ## Views -/

structure OwnerView where
  oid : ℕ
  active : Bool
  deriving DecidableEq

/-- A generation without levels and caches. A published table has no staged owner. -/
structure GenerationView (T : Provider) (B : Type) where
  base : B
  owner : Option OwnerView
  log : TxTableActionLog T

structure StateView (T : Provider) (B : Type) where
  current : GenerationView T B
  superseded : List (GenerationView T B)

abbrev TablesView (T : Provider) (B : Type) := List (RemoteTableKey × StateView T B)

def ownerView (relation : StagedRelation) : OwnerView := ⟨relation.oid, relation.isActive⟩

def ForeignTableGeneration.view (generation : ForeignTableGeneration T B) : GenerationView T B :=
  ⟨generation.base, generation.relation?.map ownerView, generation.transaction.actions.strip⟩

def ForeignTableState.view (state : ForeignTableState T B) : StateView T B :=
  ⟨state.current.view, state.superseded.map (·.generation.view)⟩

def Tables.view (tables : Tables T B) : TablesView T B :=
  tables.map fun entry => (entry.1, entry.2.view)

namespace GenerationView

def isActive (generation : GenerationView T B) : Bool := generation.owner.any (·.active)

def owns (generation : GenerationView T B) (relationOid : ℕ) : Bool :=
  generation.owner.any fun owner => owner.oid == relationOid

def staged (relationOid : ℕ) (staged : StagedTableCreate B) : GenerationView T B :=
  ⟨staged.table, some ⟨relationOid, true⟩, .empty⟩

def dropped (generation : GenerationView T B) : GenerationView T B :=
  ⟨generation.base, generation.owner.map fun owner => { owner with active := false },
    (Mutation.drop.stage generation.log).strip⟩

def written (batch : TxWriteBatch T) (generation : GenerationView T B) : GenerationView T B :=
  { generation with log := ((Mutation.batch batch).stage generation.log).strip }

end GenerationView

namespace StateView

def disposition (state : StateView T B) : StagedCreateDisposition :=
  match state.current.owner with
  | none => .published
  | some owner => if owner.active then .activeStaged else .replaceDropped

def generations (state : StateView T B) : List (GenerationView T B) :=
  state.current :: state.superseded

def replaced (next : GenerationView T B) (state : StateView T B) : StateView T B :=
  ⟨next, state.generations⟩

def mapCurrent (f : GenerationView T B → GenerationView T B) (state : StateView T B) :
    StateView T B :=
  { state with current := f state.current }

end StateView

/-- Neither a published table nor an active owner stands in the way. -/
def admitsCreate : Option StagedCreateDisposition → Bool
  | some .activeStaged | some .published => false
  | some .replaceDropped | none => true

inductive Operation (T : Provider) (B : Type) where
  | create (key : RemoteTableKey) (relationOid : ℕ) (staged : StagedTableCreate B)
  | drop (relationOid : ℕ)
  | batch (key : RemoteTableKey) (batch : TxWriteBatch T)

namespace TablesView

def disposition (tables : TablesView T B) (key : RemoteTableKey) :
    Option StagedCreateDisposition :=
  dispositionAmong key (tables.map fun entry => (entry.1, entry.2.disposition)) none

variable (tables : TablesView T B)

def ownerOf (relationOid : ℕ) :
    Option (RemoteTableKey × StateView T B) :=
  tables.find? fun entry => entry.2.current.owns relationOid

/-- A relation that the transaction has dropped is not dropped again. -/
def Droppable (relationOid : ℕ) : Prop :=
  ∀ entry ∈ tables, entry.2.current.owns relationOid = true → entry.2.current.isActive = true

instance (tables : TablesView T B) (relationOid : ℕ) : Decidable (tables.Droppable relationOid) :=
  inferInstanceAs (Decidable (∀ entry ∈ tables, _ → _))

def create (key : RemoteTableKey) (relationOid : ℕ)
    (staged : StagedTableCreate B) : TablesView T B :=
  if admitsCreate (tables.disposition key) then
    if tables.any fun entry => entry.1 == key then
      modifyEntry key (·.replaced (.staged relationOid staged)) tables
    else tables ++ [(key, ⟨.staged relationOid staged, []⟩)]
  else tables

def drop (relationOid : ℕ) : TablesView T B :=
  match tables.ownerOf relationOid with
  | none => tables
  | some entry => modifyEntry entry.1 (·.mapCurrent fun generation =>
      if generation.owns relationOid then generation.dropped else generation) tables

def write (key : RemoteTableKey) (batch : TxWriteBatch T) :
    TablesView T B :=
  modifyEntry key (·.mapCurrent (.written batch)) tables

end TablesView

def Operation.apply : Operation T B → TablesView T B → TablesView T B
  | .create key relationOid staged, tables => tables.create key relationOid staged
  | .drop relationOid, tables => tables.drop relationOid
  | .batch key write, tables => tables.write key write

/-! ## Laws of a generation -/

namespace ForeignTableGeneration

section Levels

variable (g : ForeignTableGeneration T B) (l : ℕ)

@[simp] lemma relation_rollback :
    (g.rollbackToLevel l).relation? = g.relation?.map (·.rollbackToLevel l) := by
  obtain ⟨b, o, t⟩ := g
  cases o <;> rfl

@[simp] lemma relation_promote :
    (g.promoteToLevel l).relation? = g.relation?.map (·.promoteToLevel l) := by
  obtain ⟨b, o, t⟩ := g
  cases o <;> rfl

@[simp] lemma createdLevel_rollback : (g.rollbackToLevel l).createdLevel = g.createdLevel := by
  obtain ⟨b, o, t⟩ := g
  cases o <;> rfl

@[simp] lemma createdLevel_promote :
    (g.promoteToLevel l).createdLevel = g.createdLevel.map (promoteLevel l) := by
  obtain ⟨b, o, t⟩ := g
  cases o <;> rfl

lemma view_rollback :
    (g.rollbackToLevel l).view = ⟨g.base, g.relation?.map fun r => ownerView (r.rollbackToLevel l),
      (g.transaction.rollbackToLevel l).actions.strip⟩ := by
  simp only [view, relation_rollback, Option.map_map, Function.comp_def]
  rfl

@[simp] lemma view_promote : (g.promoteToLevel l).view = g.view := by
  have ho : ownerView ∘ (fun r => r.promoteToLevel l) = ownerView := by
    funext r
    simp [ownerView, StagedRelation.promoteToLevel, StagedRelation.isActive]
  simp only [view, relation_promote, Option.map_map, ho]
  rfl

end Levels

lemma rollback_valid {tx : TableTransactionState T} (h : ValidCaches tx.actions) (l : ℕ) :
    ValidCaches (tx.rollbackToLevel l).actions := by
  obtain ⟨actions, history⟩ := tx
  unfold TableTransactionState.rollbackToLevel
  induction history generalizing actions with
  | nil => exact h
  | cons f r ih =>
    simp only [rollbackFrames]
    split_ifs with hl
    · exact h
    · exact ih _ (LogEvent.apply_valid h (.rollback f.marker))

/-- Every level a generation records is at most `level`, and its caches hold what would
be computed now. -/
structure Bounded (level : ℕ) (generation : ForeignTableGeneration T B) : Prop where
  created : ∀ created ∈ generation.createdLevel, created ≤ level
  dropped : ∀ relation ∈ generation.relation?, ∀ dropped ∈ relation.droppedAt, dropped ≤ level
  transaction : generation.transaction.Bounded level
  caches : ValidCaches generation.transaction.actions

variable {generation : ForeignTableGeneration T B}

lemma Bounded.mono {low high : ℕ} (h : generation.Bounded low) (hle : low ≤ high) :
    generation.Bounded high where
  created created hc := (h.created created hc).trans hle
  dropped relation hr dropped hd := (h.dropped relation hr dropped hd).trans hle
  transaction := h.transaction.mono hle
  caches := h.caches

lemma bounded_staged (o l : ℕ) (d : StagedTableCreate B) :
    (staged o l d : ForeignTableGeneration T B).Bounded l where
  created created hc := by
    simp only [staged, createdLevel, mem_some_iff] at hc
    exact hc.ge
  dropped relation hr dropped hd := by
    simp only [staged, relation?, mem_some_iff] at hr
    simp [← hr, StagedRelation.new] at hd
  transaction := bounded_new l
  caches := runLog_valid []

variable {l : ℕ}

lemma Bounded.rollback (h : generation.Bounded (l + 1))
    (hc : ∀ created ∈ generation.createdLevel, created ≤ l) :
    (generation.rollbackToLevel (l + 1)).Bounded l where
  created := by simpa using hc
  dropped relation hr dropped hd := by
    simp only [relation_rollback, Option.mem_map] at hr
    obtain ⟨o, -, rfl⟩ := hr
    simp only [StagedRelation.rollbackToLevel, Option.mem_filter_iff, decide_eq_true_eq] at hd
    omega
  transaction := h.transaction.rollback
  caches := rollback_valid h.caches (l + 1)

variable {rs : ℕ}

lemma Bounded.promoted {b : ℕ} (h : generation.Bounded l)
    (hl : ∀ recorded ≤ l, promoteLevel rs recorded ≤ b)
    (ht : (generation.transaction.promoteToLevel rs).Bounded b) :
    (generation.promoteToLevel rs).Bounded b where
  created created hc := by
    simp only [createdLevel_promote, Option.mem_map] at hc
    obtain ⟨o, ho, rfl⟩ := hc
    exact hl o (h.created o ho)
  dropped relation hr dropped hd := by
    simp only [relation_promote, Option.mem_map] at hr
    obtain ⟨o, ho, rfl⟩ := hr
    simp only [StagedRelation.promoteToLevel, Option.mem_map] at hd
    obtain ⟨ol, hol, rfl⟩ := hd
    exact hl ol (h.dropped o ho ol hol)
  transaction := ht
  caches := h.caches

lemma Bounded.promote (h : generation.Bounded (l + 1)) :
    (generation.promoteToLevel (l + 1)).Bounded l :=
  h.promoted (fun o _ => promoteLevel_le (l + 1) o) h.transaction.promote

lemma Bounded.promote_above (h : generation.Bounded l) (hlt : l < rs) :
    (generation.promoteToLevel rs).Bounded l := by
  refine h.promoted (fun o hle => ?_) (h.transaction.promote_above hlt)
  rwa [promoteLevel, if_neg (by omega)]

variable {t : ℕ}

lemma view_rollback_above (h : generation.Bounded l) (hlt : l < t) :
    (generation.rollbackToLevel t).view = generation.view := by
  rw [view_rollback, rollback_above h.transaction hlt]
  congr 1
  cases hr : generation.relation? with
  | none => rfl
  | some r =>
    have hke : r.droppedAt.filter (fun d => decide (d < t)) = r.droppedAt := by
      cases hd : r.droppedAt with
      | none => rfl
      | some d =>
        have hle := h.dropped r hr d hd
        have hk : d < t := by omega
        simp [hk]
    simp only [map_some, StagedRelation.rollbackToLevel, hke]

lemma view_rollback_rollback (g : ForeignTableGeneration T B) (hle : t ≤ l) :
    ((g.rollbackToLevel l).rollbackToLevel t).view = (g.rollbackToLevel t).view := by
  rw [view_rollback, view_rollback, relation_rollback, Option.map_map]
  simp only [rollbackToLevel, rollback_rollback _ hle]
  congr 2
  funext relation
  simp only [Function.comp_apply, StagedRelation.rollbackToLevel, Option.filter_filter]
  congr 2
  congr 1
  funext dropped
  by_cases hd : dropped < t
  · have hl : dropped < l := by omega
    simp [hd, hl]
  · simp [hd]

lemma view_rollback_promote (h : generation.Bounded l) (hlo : 2 ≤ t) (hlt : t < rs) :
    ((generation.promoteToLevel rs).rollbackToLevel t).view =
      (generation.rollbackToLevel t).view := by
  rw [view_rollback, view_rollback, relation_promote, Option.map_map]
  simp only [promoteToLevel, rollback_promote h.transaction hlo hlt]
  congr 2
  funext relation
  have hs (d : ℕ) : promoteLevel rs d < t ↔ d < t := by
    rw [← not_le, ← not_le]
    exact not_congr (le_promoteLevel_iff hlt)
  cases hd : relation.droppedAt with
  | none => simp [ownerView, StagedRelation.rollbackToLevel, StagedRelation.promoteToLevel,
      StagedRelation.isActive, hd]
  | some d =>
    by_cases hl : d < t <;>
      simp [ownerView, StagedRelation.rollbackToLevel, StagedRelation.promoteToLevel,
        StagedRelation.isActive, hd, hs, hl]

end ForeignTableGeneration

/-! ## Laws of a table -/

namespace ForeignTableState

def oldest : ForeignTableGeneration T B → List (SupersededGeneration T B) →
    ForeignTableGeneration T B
  | current, [] => current
  | _, newest :: rest => oldest newest.generation rest

variable (u : ForeignTableGeneration T B)

lemma oldest_getLast (p : List (SupersededGeneration T B)) :
    oldest u p = match p.getLast? with | none => u | some last => last.generation := by
  induction p generalizing u with
  | nil => rfl
  | cons n r ih =>
    rw [oldest, ih]
    cases r with
    | nil => rfl
    | cons next r => rw [List.getLast?_cons_cons]; rfl

variable (s : ForeignTableState T B)

lemma stagedAtOrAfter_eq (l : ℕ) :
    s.stagedAtOrAfter l = (oldest s.current s.superseded).stagedAtOrAfter l := by
  rw [oldest_getLast, stagedAtOrAfter]
  cases s.superseded.getLast? <;> rfl

/-- Every generation was created when it replaced the one below. -/
def Linked : ForeignTableGeneration T B → List (SupersededGeneration T B) → Prop
  | _, [] => True
  | generation, newest :: rest =>
    (∀ created ∈ generation.createdLevel, created ≤ newest.replacedAt) ∧
      Linked newest.generation rest

/-- The levels of a table are at most `level`, and those of a superseded generation at
most the level of its replacement. -/
structure Bounded (level : ℕ) (state : ForeignTableState T B) : Prop where
  current : state.current.Bounded level
  replaced : ∀ entry ∈ state.superseded, entry.replacedAt ≤ level
  sorted : state.superseded.Pairwise fun newer older => older.replacedAt ≤ newer.replacedAt
  retired : ∀ entry ∈ state.superseded, entry.generation.Bounded entry.replacedAt
  linked : Linked state.current state.superseded

variable {s : ForeignTableState T B} {v : ℕ}

lemma Bounded.mono {low high : ℕ} (h : s.Bounded low) (hle : low ≤ high) : s.Bounded high where
  current := h.current.mono hle
  replaced entry he := (h.replaced entry he).trans hle
  sorted := h.sorted
  retired := h.retired
  linked := h.linked

lemma Bounded.generations (h : s.Bounded v) : ∀ e ∈ s.superseded, e.generation.Bounded v :=
  fun e he => (h.retired e he).mono (h.replaced e he)

lemma bounded_staged (o l : ℕ) (d : StagedTableCreate B) :
    (staged o l d : ForeignTableState T B).Bounded l where
  current := ForeignTableGeneration.bounded_staged o l d
  replaced := by simp [staged]
  sorted := List.Pairwise.nil
  retired := by simp [staged]
  linked := trivial

lemma Bounded.replace (h : s.Bounded v) (o : ℕ) (d : StagedTableCreate B) :
    (s.replaceDroppedStagedGeneration o v d).Bounded v where
  current := ForeignTableGeneration.bounded_staged o v d
  replaced := forall_mem_cons.mpr ⟨le_refl v, h.replaced⟩
  sorted := pairwise_cons.mpr ⟨h.replaced, h.sorted⟩
  retired := forall_mem_cons.mpr ⟨h.current, h.retired⟩
  linked := by
    refine ⟨fun c hc => ?_, h.linked⟩
    exact (ForeignTableGeneration.bounded_staged (T := T) o v d).created c hc

lemma Bounded.setCurrent (h : s.Bounded v) {u : ForeignTableGeneration T B} (hcu : u.Bounded v)
    (hc : u.createdLevel = s.current.createdLevel) :
    ({ s with current := u } : ForeignTableState T B).Bounded v where
  current := hcu
  replaced := h.replaced
  sorted := h.sorted
  retired := h.retired
  linked := by
    have hl := h.linked
    cases hs : s.superseded with
    | nil => trivial
    | cons n r =>
      rw [hs] at hl
      exact ⟨hc ▸ hl.1, hl.2⟩

/-! ### Rolling back -/

section Chains

variable (l : ℕ) (p : List (SupersededGeneration T B)) (u : ForeignTableGeneration T B)

lemma restore_superseded :
    (restoreSuperseded l p u).superseded = p.dropWhile (fun e => decide (l ≤ e.replacedAt)) := by
  induction p generalizing u with
  | nil => rfl
  | cons n r ih =>
    simp only [restoreSuperseded, dropWhile_cons]
    by_cases hp : l ≤ n.replacedAt
    · simp only [if_pos hp, decide_eq_true hp, if_true]
      exact ih n.generation
    · simp [hp]

/-- What holds of a chain of generations and of all below it is kept by a restore. -/
lemma restore_induction {P : ForeignTableGeneration T B → List (SupersededGeneration T B) → Prop}
    (hp : ∀ u n rest, P u (n :: rest) → P n.generation rest) (h : P u p) :
    P (restoreSuperseded l p u).current (restoreSuperseded l p u).superseded := by
  induction p generalizing u with
  | nil => exact h
  | cons n rest ih =>
    simp only [restoreSuperseded]
    split_ifs
    · exact ih n.generation (hp u n rest h)
    · exact h

lemma restore_oldest :
    oldest (restoreSuperseded l p u).current (restoreSuperseded l p u).superseded = oldest u p :=
  restore_induction (P := fun g r => oldest g r = oldest u p) l p u (fun _ _ _ h => h) rfl

lemma linked_promote (h : Linked u p) :
    Linked (u.promoteToLevel l) (p.map (promoteSuperseded l)) := by
  induction p generalizing u with
  | nil => trivial
  | cons n r ih =>
    refine ⟨fun c hc => ?_, ih n.generation h.2⟩
    simp only [createdLevel_promote, Option.mem_map] at hc
    obtain ⟨o, ho, rfl⟩ := hc
    exact promoteLevel_mono (h.1 o ho)

lemma oldest_promote :
    oldest (u.promoteToLevel l) (p.map (promoteSuperseded l)) = (oldest u p).promoteToLevel l := by
  induction p generalizing u with
  | nil => rfl
  | cons n r ih => exact ih n.generation

variable {l p u}

lemma oldest_setCurrent {r : ForeignTableGeneration T B} (hc : r.createdLevel = u.createdLevel) :
    (oldest r p).createdLevel = (oldest u p).createdLevel := by
  cases p with
  | nil => exact hc
  | cons n rest => rfl

lemma oldest_bounded (hc : u.Bounded l) (hr : ∀ e ∈ p, e.generation.Bounded l) :
    (oldest u p).Bounded l := by
  induction p generalizing u with
  | nil => exact hc
  | cons n r ih =>
    rw [forall_mem_cons] at hr
    exact ih hr.1 hr.2

end Chains

/-- The abort of one table: it disappears with its oldest creation. -/
def undo (target : ℕ) (state : ForeignTableState T B) : Option (ForeignTableState T B) :=
  if state.stagedAtOrAfter target then none else some (state.rollbackToLevel target)

lemma not_stagedAtOrAfter_iff {g : ForeignTableGeneration T B} :
    g.stagedAtOrAfter (v + 1) = false ↔ ∀ c ∈ g.createdLevel, c ≤ v := by
  unfold ForeignTableGeneration.stagedAtOrAfter
  cases g.createdLevel with
  | none => simp
  | some c => simp only [any_some, decide_eq_false_iff_not, not_le, Nat.lt_succ_iff,
      mem_def, some.injEq, forall_eq']

lemma Bounded.undo {undone : ForeignTableState T B} (h : s.Bounded (v + 1))
    (hu : s.undo (v + 1) = some undone) : undone.Bounded v := by
  unfold ForeignTableState.undo at hu
  split_ifs at hu with hre
  cases hu
  have hk := restore_superseded (v + 1) s.superseded s.current
  have hl := restore_induction (v + 1) s.superseded s.current (fun _ _ _ hl => hl.2) h.linked
  have ho := restore_oldest (v + 1) s.superseded s.current
  have hb := (restore_induction (v + 1) s.superseded s.current
    (P := fun u r => u.Bounded (v + 1) ∧ ∀ e ∈ r, e.generation.Bounded (v + 1))
    (fun _ _ _ hrest => forall_mem_cons.mp hrest.2)
    ⟨h.current, h.generations⟩).1
  have hsu : (s.superseded.dropWhile fun e => decide (v + 1 ≤ e.replacedAt)).Sublist s.superseded :=
    dropWhile_sublist _
  rw [stagedAtOrAfter_eq, Bool.not_eq_true, not_stagedAtOrAfter_iff] at hre
  simp only [ForeignTableState.rollbackToLevel]
  generalize hres : restoreSuperseded (v + 1) s.superseded s.current = restored at hk hl ho hb
  obtain ⟨u, superseded⟩ := restored
  -- the first entry that stays was replaced at or below `lvl`, and so were those under it
  have hr : ∀ e ∈ superseded, e.replacedAt ≤ v := by
    have hs := h.sorted.sublist hsu
    rw [← hk] at hs
    cases superseded with
    | nil => simp
    | cons n r =>
      have ht := head_dropWhile_not (fun e : SupersededGeneration T B =>
        decide (v + 1 ≤ e.replacedAt)) (l := s.superseded) (by rw [← hk]; simp)
      simp only [← hk, head_cons, decide_eq_false_iff_not, not_le] at ht
      refine forall_mem_cons.mpr ⟨by omega, fun e he => ?_⟩
      have hle := rel_of_pairwise_cons hs he
      omega
  have hc : ∀ c ∈ u.createdLevel, c ≤ v := by
    cases superseded with
    | nil =>
      intro c hm
      exact hre c (by rw [← ho]; exact hm)
    | cons n r =>
      intro c hm
      exact (hl.1 c hm).trans (hr n mem_cons_self)
  refine ⟨hb.rollback hc, hr, ?_, fun e he => ?_, ?_⟩
  · exact hk ▸ h.sorted.sublist hsu
  · exact h.retired e (hsu.subset (hk ▸ he))
  · cases superseded with
    | nil => trivial
    | cons n r => exact ⟨by simpa using hl.1, hl.2⟩

lemma view_undo (t : ℕ) (s : ForeignTableState T B) :
    (s.undo t).map view = if (oldest s.current s.superseded).stagedAtOrAfter t then none else
      some (s.rollbackToLevel t).view := by
  rw [undo, stagedAtOrAfter_eq]
  split_ifs <;> rfl

variable {t : ℕ}

/-- A rollback looks at the current generation only if no replacement is popped. -/
lemma view_undo_setCurrent (hc : u.createdLevel = s.current.createdLevel)
    (hv : (u.rollbackToLevel t).view = (s.current.rollbackToLevel t).view) :
    (({ s with current := u } : ForeignTableState T B).undo t).map view = (s.undo t).map view := by
  have hs : (oldest u s.superseded).stagedAtOrAfter t =
      (oldest s.current s.superseded).stagedAtOrAfter t := by
    unfold ForeignTableGeneration.stagedAtOrAfter
    rw [oldest_setCurrent hc]
  have hr : (rollbackToLevel { s with current := u } t).view = (s.rollbackToLevel t).view := by
    obtain ⟨o, superseded⟩ := s
    cases superseded with
    | nil => simp only [rollbackToLevel, restoreSuperseded, view, hv]
    | cons n r =>
      by_cases hp : t ≤ n.replacedAt
      · simp only [rollbackToLevel, restoreSuperseded, if_pos hp]
      · simp only [rollbackToLevel, restoreSuperseded, if_neg hp, view, hv]
  rw [view_undo, view_undo, hs, hr]

lemma undo_replace (o : ℕ) (d : StagedTableCreate B) (hle : t ≤ v) :
    (s.replaceDroppedStagedGeneration o v d).undo t = s.undo t := by
  rw [undo, undo, stagedAtOrAfter_eq, stagedAtOrAfter_eq]
  simp only [replaceDroppedStagedGeneration, oldest, rollbackToLevel, restoreSuperseded, if_pos hle]

lemma undo_staged (o : ℕ) (d : StagedTableCreate B) (hle : t ≤ v) :
    (staged o v d : ForeignTableState T B).undo t = none := by
  have hr : (staged o v d : ForeignTableState T B).stagedAtOrAfter t = true := by
    simp [staged, stagedAtOrAfter, ForeignTableGeneration.staged,
      ForeignTableGeneration.stagedAtOrAfter, ForeignTableGeneration.createdLevel, hle]
  rw [undo, if_pos hr]

lemma view_undo_above (h : s.Bounded v) (hlt : v < t) : (s.undo t).map view = some s.view := by
  obtain ⟨t, rfl⟩ : ∃ b, t = b + 1 := ⟨t - 1, by omega⟩
  have ho : (oldest s.current s.superseded).Bounded v := oldest_bounded h.current h.generations
  have hk : (oldest s.current s.superseded).stagedAtOrAfter (t + 1) = false :=
    not_stagedAtOrAfter_iff.mpr fun c hc => by
      have hle := ho.created c hc
      omega
  have hr : restoreSuperseded (t + 1) s.superseded s.current = s := by
    obtain ⟨current, superseded⟩ := s
    cases superseded with
    | nil => rfl
    | cons n r =>
      have hle := h.replaced n mem_cons_self
      rw [restoreSuperseded, if_neg (by omega)]
  rw [view_undo, hk, if_neg (by simp), rollbackToLevel, hr]
  simp only [view, view_rollback_above h.current hlt]

lemma view_rollback_restore (hle : t ≤ v) (p : List (SupersededGeneration T B))
    (u : ForeignTableGeneration T B) :
    (rollbackToLevel { restoreSuperseded v p u with
          current := (restoreSuperseded v p u).current.rollbackToLevel v }
        t).view =
      (rollbackToLevel ⟨u, p⟩ t).view := by
  induction p generalizing u with
  | nil => simp only [restoreSuperseded, rollbackToLevel, view, view_rollback_rollback u hle]
  | cons n r ih =>
    by_cases hp : v ≤ n.replacedAt
    · simp only [restoreSuperseded, if_pos hp]
      rw [ih]
      simp only [rollbackToLevel, restoreSuperseded, if_pos (show t ≤ n.replacedAt by omega)]
    · simp only [restoreSuperseded, if_neg hp, rollbackToLevel]
      by_cases ht : t ≤ n.replacedAt
      · simp only [if_pos ht]
      · simp only [if_neg ht, view, view_rollback_rollback u hle]

lemma view_undo_undo (s : ForeignTableState T B) (hle : t ≤ v) :
    ((s.undo v).bind (undo t)).map view = (s.undo t).map view := by
  rw [view_undo t s]
  unfold undo
  rw [stagedAtOrAfter_eq]
  cases hr : (oldest s.current s.superseded).stagedAtOrAfter v with
  | true =>
    have hb : (oldest s.current s.superseded).stagedAtOrAfter t = true := by
      unfold ForeignTableGeneration.stagedAtOrAfter at hr ⊢
      cases hc : (oldest s.current s.superseded).createdLevel with
      | none => simp [hc] at hr
      | some c =>
        simp only [hc, any_some, decide_eq_true_eq] at hr ⊢
        omega
    rw [if_pos rfl, if_pos hb]
    rfl
  | false =>
    rw [if_neg (by simp), bind_some, ← undo, view_undo]
    have hs : (oldest (s.rollbackToLevel v).current
        (s.rollbackToLevel v).superseded).stagedAtOrAfter t =
          (oldest s.current s.superseded).stagedAtOrAfter t := by
      unfold ForeignTableGeneration.stagedAtOrAfter rollbackToLevel
      rw [oldest_setCurrent (createdLevel_rollback _ v), restore_oldest]
    have hv : ((s.rollbackToLevel v).rollbackToLevel t).view = (s.rollbackToLevel t).view :=
      view_rollback_restore hle s.superseded s.current
    rw [hs, hv]

/-! ### Releases -/

@[simp] lemma view_promote (l : ℕ) : (s.promoteToLevel l).view = s.view := by
  simp [view, promoteToLevel, promoteSuperseded, Function.comp_def]

lemma Bounded.promote (h : s.Bounded (v + 1)) : (s.promoteToLevel (v + 1)).Bounded v where
  current := h.current.promote
  replaced entry he := by
    obtain ⟨o, -, rfl⟩ := mem_map.mp he
    exact promoteLevel_le (v + 1) o.replacedAt
  sorted := pairwise_map.mpr (h.sorted.imp fun hle => promoteLevel_mono hle)
  retired entry he := by
    obtain ⟨o, ho, rfl⟩ := mem_map.mp he
    have hr := h.retired o ho
    have hrep := h.replaced o ho
    simp only [promoteSuperseded, promoteLevel]
    split_ifs with hre
    · rw [show o.replacedAt = v + 1 by omega] at hr
      exact hr.promote
    · exact hr.promote_above (by omega)
  linked := linked_promote (v + 1) s.superseded s.current h.linked

variable {rs : ℕ}

lemma stagedAtOrAfter_promote (hlt : t < rs) (g : ForeignTableGeneration T B) :
    (g.promoteToLevel rs).stagedAtOrAfter t = g.stagedAtOrAfter t := by
  unfold ForeignTableGeneration.stagedAtOrAfter
  rw [ForeignTableGeneration.createdLevel_promote, Option.any_map]
  congr 1
  funext created
  simp only [le_promoteLevel_iff hlt]

lemma view_rollback_promote (hl : 2 ≤ t) (hlt : t < rs) (p : List (SupersededGeneration T B))
    (u : ForeignTableGeneration T B) (hc : u.Bounded v) (hr : ∀ e ∈ p, e.generation.Bounded v) :
    (rollbackToLevel ⟨u.promoteToLevel rs, p.map (promoteSuperseded rs)⟩ t).view =
      (rollbackToLevel ⟨u, p⟩ t).view := by
  induction p generalizing u with
  | nil =>
    simp only [map_nil, rollbackToLevel, restoreSuperseded, view,
      ForeignTableGeneration.view_rollback_promote hc hl hlt]
  | cons n r ih =>
    rw [forall_mem_cons] at hr
    have hre := ih n.generation hr.1 hr.2
    simp only [map_cons, rollbackToLevel, restoreSuperseded]
    have hiff : t ≤ (promoteSuperseded rs n).replacedAt ↔
        t ≤ n.replacedAt := le_promoteLevel_iff hlt
    by_cases hp : t ≤ n.replacedAt
    · simp only [if_pos (hiff.mpr hp), if_pos hp]
      exact hre
    · simp only [if_neg (hiff.not.mpr hp), if_neg hp, view,
        ForeignTableGeneration.view_rollback_promote hc hl hlt]
      simp [promoteSuperseded, Function.comp_def]

lemma view_undo_promote (h : s.Bounded v) (hl : 2 ≤ t) (hlt : t < rs) :
    ((s.promoteToLevel rs).undo t).map view = (s.undo t).map view := by
  rw [view_undo, view_undo]
  unfold promoteToLevel
  rw [oldest_promote, stagedAtOrAfter_promote hlt,
    view_rollback_promote hl hlt s.superseded s.current h.current h.generations]

end ForeignTableState

end LagoDB.StagedCreates
