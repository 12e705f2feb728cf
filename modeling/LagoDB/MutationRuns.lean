import LagoDB.RegistryRefinement

/-!
# Runs of mutation sessions

Any number of modify states share one row registry. A run registers files, opens
sessions, inserts, updates and deletes, and is told of released and aborted
subtransactions. The table of live claims is kept alongside as the reference.
-/
namespace LagoDB.RowClaims

open ActionLog List Option RowDeleteState MutationSinks RowMutationClaim

variable {ρ : Type}

/-! ## Events -/

/-- An update brings the new version of the row. -/
inductive MutationKind (ρ : Type) where
  | update (row : ρ)
  | delete

inductive Event (ρ : Type) where
  | registerFile (path : String)
  | openSession (writesRows writesDeletes : Bool)
  | insert (session : ℕ) (row : ρ)
  | mutate (session : ℕ) (kind : MutationKind ρ) (fileId : IcebergFileId) (position : ℕ)
    (command : CommandId) (nestLevel : ℤ)
  | rollback (targetLevel : ℤ)
  | promote (fromLevel : ℤ)

/-- An update or delete of a row: how its claim ended, if it came to one, and the rows it
added to the session's data files. -/
structure Callback (ρ : Type) where
  session : ℕ
  kind : MutationKind ρ
  target : IcebergFileId × ℕ
  command : CommandId
  claim : Option (Except IcebergError RowDeleteClaim)
  appended : List ρ

def Callback.Took (callback : Callback ρ) : Prop := callback.claim = some (.ok .firstTouch)

/-- `table` follows the reference; `cut` are the states that have lost an owner to a
rollback, `late` those of them that have claimed since. -/
structure Run (ρ : Type) where
  registry : RelationRowRegistry
  sessions : List (MutationSinks ρ)
  callbacks : List (Callback ρ)
  table : ClaimTable
  cut : Set ModifyStateId
  late : Set ModifyStateId

open Run

namespace Run

def new : Run ρ := ⟨.new, [], [], .new, ∅, ∅⟩

def deletesOf (run : Run ρ) (session : ℕ) : Option RowDeleteState :=
  (run.sessions[session]?).bind rowDeletes

def stateOf (run : Run ρ) (session : ℕ) : Option ModifyStateId :=
  (run.deletesOf session).map modifyStateId

end Run

/-- The state that claims the row; an update needs a sink for the new version as well. -/
def MutationSinks.claimant (kind : MutationKind ρ) : MutationSinks ρ → Option RowDeleteState
  | .rowsAndDeletes _ own => some own
  | .deletes own =>
    match kind with
    | .update _ => none
    | .delete => some own
  | .rows _ => none

section Steps

variable (encode : ρ → Except IcebergError Unit) (registry : RelationRowRegistry)

def MutationSinks.mutate (kind : MutationKind ρ)
    (fileId : IcebergFileId) (position : ℕ) (command : CommandId) (nestLevel : ℤ)
    (sinks : MutationSinks ρ) :
    Except IcebergError RowDeleteClaim × MutationSinks ρ × RelationRowRegistry :=
  match kind with
  | .update row => sinks.update encode registry fileId position row command nestLevel
  | .delete => sinks.delete registry fileId position command nestLevel

/-- A session with the sinks its actions ask for. -/
def openSinks (writesRows writesDeletes : Bool) :
    Except IcebergError (MutationSinks ρ) × RelationRowRegistry :=
  let rows : Option (DataFileSink ρ) := if writesRows then some ⟨[]⟩ else none
  if writesDeletes then
    match new registry with
    | (.ok own, registry) => (new rows (some own), registry)
    | (.error error, registry) => (.error error, registry)
  else (new rows none, registry)

def Run.step (run : Run ρ) : Event ρ → Run ρ
  | .registerFile path =>
    { run with
      registry := (run.registry.registerFile path).2
      table := run.table.register path }
  | .openSession writesRows writesDeletes =>
    match openSinks run.registry writesRows writesDeletes with
    | (.ok sinks, registry) =>
      { run with registry := registry, sessions := run.sessions ++ [sinks] }
    | (.error _, registry) => { run with registry := registry }
  | .insert session row =>
    match run.sessions[session]? with
    | some sinks => { run with sessions := run.sessions.set session (sinks.insert encode row).2 }
    | none => run
  | .mutate session kind fileId position command nestLevel =>
    match run.sessions[session]? with
    | none => run
    | some sinks =>
      let result := sinks.mutate encode run.registry kind fileId position command nestLevel
      { run with
        registry := result.2.2
        sessions := run.sessions.set session result.2.1
        callbacks := run.callbacks ++
          [⟨session, kind, (fileId, position), command,
            (sinks.claimant kind).map fun own =>
              (own.claim run.registry fileId position command nestLevel).1,
            result.2.1.appended.drop sinks.appended.length⟩]
        table :=
          match sinks.claimant kind with
          | some own =>
            (run.table.claim own.modifyStateId fileId position command nestLevel).2
          | none => run.table
        late :=
          match sinks.claimant kind with
          | some own => run.late ∪ ({own.modifyStateId} ∩ run.cut)
          | none => run.late }
  | .rollback targetLevel =>
    { run with
      registry := run.registry.rollbackToLevel targetLevel
      table := run.table.rollback targetLevel
      cut := run.cut ∪ { state | ∃ fileId, run.table.undone targetLevel state fileId = true } }
  | .promote fromLevel =>
    { run with
      registry := run.registry.promoteToLevel fromLevel
      table := run.table.promote fromLevel }

def Run.run (events : List (Event ρ)) : Run ρ := events.foldl (step encode) .new

end Steps

/-! ## One callback -/

section Callbacks

variable {encode : ρ → Except IcebergError Unit} {rg : RelationRowRegistry} {file : IcebergFileId}
  {pos : ℕ} {m : CommandId} {l : ℤ}

/-- What a claim does to the row deletes of its state. -/
def RowDeleteState.handed (own : RowDeleteState) (fileId : IcebergFileId) :
    Except IcebergError RowMutationClaim → RowDeleteState
  | .ok (.firstTouch (some positions)) =>
    { own with positionDeletes := own.positionDeletes ++ [(fileId, positions)] }
  | _ => own

lemma rowDeleteState_claim (own : RowDeleteState) (g : RelationRowRegistry)
    (f : IcebergFileId) (pos : ℕ) (m : CommandId) (l : ℤ) :
    own.claim g f pos m l = ((g.claim own.modifyStateId f pos m l).1.map outcome,
      own.handed f (g.claim own.modifyStateId f pos m l).1,
      (g.claim own.modifyStateId f pos m l).2) := by
  rw [claim]
  split
  next e next hc => rw [hc]; rfl
  next p next hc => rw [hc]; rfl
  next next hc => rw [hc]; rfl
  next c next hc => rw [hc]; rfl

/-- The rows a callback adds: the new version, for an update that is the first to touch
the row. -/
def MutationKind.successor (encode : ρ → Except IcebergError Unit) :
    MutationKind ρ → Except IcebergError RowDeleteClaim → List ρ
  | .update row, .ok .firstTouch =>
    match encode row with
    | .ok _ => [row]
    | .error _ => []
  | _, _ => []

structure Mutated (encode : ρ → Except IcebergError Unit) (sinks : MutationSinks ρ)
    (registry : RelationRowRegistry) (kind : MutationKind ρ) (fileId : IcebergFileId)
    (position : ℕ) (command : CommandId) (nestLevel : ℤ) (own : RowDeleteState)
    (sinks' : MutationSinks ρ) (registry' : RelationRowRegistry) : Prop where
  deletes : sinks.rowDeletes = some own
  deletes' : sinks'.rowDeletes = some (own.claim registry fileId position command nestLevel).2.1
  registry' : registry' = (own.claim registry fileId position command nestLevel).2.2
  appended : sinks'.appended = sinks.appended ++
    kind.successor encode (own.claim registry fileId position command nestLevel).1

variable {k : MutationSinks ρ} {kind : MutationKind ρ}

lemma mutate_claimant (e : ρ → Except IcebergError Unit)
    {own : RowDeleteState} (h : k.claimant kind = some own) :
    Mutated e k rg kind file pos m l own (k.mutate e rg kind file pos m l).2.1
      (k.mutate e rg kind file pos m l).2.2 := by
  cases k with
  | rows s => cases h
  | deletes f =>
    cases kind with
    | update row => cases h
    | delete =>
      cases h
      exact ⟨rfl, rfl, rfl, (append_nil _).symm⟩
  | rowsAndDeletes s f =>
    cases h
    cases kind with
    | delete => exact ⟨rfl, rfl, rfl, (append_nil _).symm⟩
    | update row =>
      rw [mutate, update]
      split
      next c next hc =>
        have hr : (s.append e row).2.appended =
            s.appended ++ MutationKind.successor e (.update row) (.ok .firstTouch) := by
          rw [DataFileSink.append, MutationKind.successor]
          cases e row with
          | error error => exact (append_nil _).symm
          | ok w => rfl
        split <;> next ha =>
          rw [ha] at hr
          exact ⟨rfl, by rw [hc]; rfl, by rw [hc], by rw [hc]; exact hr⟩
      next r c next ho hc =>
        refine ⟨rfl, by rw [hc]; rfl, by rw [hc], ?_⟩
        have hn : MutationKind.successor e (.update row) r = [] := by
          rw [MutationKind.successor.eq_def]
          split
          next => exact absurd rfl ho
          next => rfl
        rw [hc, hn]
        exact (append_nil _).symm

lemma mutate_refused (h : k.claimant kind = none) :
    (k.mutate encode rg kind file pos m l).2 = (k, rg) := by
  cases k with
  | rows s => cases kind <;> rfl
  | deletes f =>
    cases kind with
    | update row => rfl
    | delete => cases h
  | rowsAndDeletes s f => cases h

end Callbacks

/-! ## The registry along a run -/

/-- The registry follows the table, and every session has a state of its own. -/
structure Sound (run : Run ρ) : Prop where
  consistent : Consistent run.registry
  refines : Refines run.registry run.table
  ids : ∀ session state, run.stateOf session = some state →
    state < run.registry.nextModifyStateId
  distinct : ∀ session other state, run.stateOf session = some state →
    run.stateOf other = some state → session = other

open Run

variable {s : ℕ}

lemma deletesOf_set {run run' : Run ρ} {k s' : MutationSinks ρ} (h : run.sessions[s]? = some k)
    (h' : run'.sessions = run.sessions.set s s') (o : ℕ) :
    run'.deletesOf o = if o = s then s'.rowDeletes else run.deletesOf o := by
  rw [deletesOf, h', getElem?_set]
  by_cases hs : s = o
  · have hl : o < run.sessions.length := by
      rw [← hs]
      exact (List.getElem?_eq_some_iff.mp h).1
    simp [hs, hl]
  · rw [if_neg hs, if_neg (Ne.symm hs), deletesOf]

/-- A session has no state, or a new one. -/
inductive OpenStep (registry : RelationRowRegistry) :
    Except IcebergError (MutationSinks ρ) → RelationRowRegistry → Prop where
  | refused (error : IcebergError) : OpenStep registry (.error error) registry
  | rows (sinks : MutationSinks ρ) (h : sinks.rowDeletes = none) :
    OpenStep registry (.ok sinks) registry
  | deletes (sinks : MutationSinks ρ)
    (h : sinks.rowDeletes = some ⟨registry.nextModifyStateId, []⟩) :
    OpenStep registry (.ok sinks)
      { registry with nextModifyStateId := registry.nextModifyStateId + 1 }

variable (g : RelationRowRegistry)

lemma openSinks_step (w d : Bool) : OpenStep g (openSinks (ρ := ρ) g w d).1
      (openSinks (ρ := ρ) g w d).2 := by
  cases d with
  | false =>
    cases w with
    | false => exact .refused _
    | true => exact .rows _ rfl
  | true =>
    by_cases hr : g.nextModifyStateId + 1 < 2 ^ 64
    · have hn : new g = (.ok ⟨g.nextModifyStateId, []⟩,
          { g with nextModifyStateId := g.nextModifyStateId + 1 }) := by
        rw [RowDeleteState.new, RelationRowRegistry.beginModifyState, if_pos hr]
      simp only [openSinks, if_true, hn]
      cases w with
      | false | true => exact .deletes _ rfl
    · have hn : new g =
          (.error (.metadataTracker "Iceberg ModifyState ID space was exhausted"), g) := by
        rw [RowDeleteState.new, RelationRowRegistry.beginModifyState, if_neg hr]
      simp only [openSinks, if_true, hn]
      exact .refused _

variable (encode : ρ → Except IcebergError Unit)

lemma insert_rowDeletes (row : ρ)
    (k : MutationSinks ρ) : (k.insert encode row).2.rowDeletes = k.rowDeletes := by
  cases k <;> rfl

variable {k : MutationSinks ρ}

lemma deletesOf_append {run run' : Run ρ} (h : run'.sessions = run.sessions ++ [k]) (s : ℕ) :
    run'.deletesOf s = if s = run.sessions.length then k.rowDeletes else run.deletesOf s := by
  rw [deletesOf, h, getElem?_append, deletesOf]
  rcases Nat.lt_trichotomy s run.sessions.length with hlt | rfl | hlt
  · rw [if_pos hlt, if_neg (Nat.ne_of_lt hlt)]
  · simp
  · have hl : [k].length ≤ s - run.sessions.length := by
      simp only [length_singleton]
      omega
    rw [if_neg (Nat.not_lt_of_lt hlt), if_neg (Nat.ne_of_gt hlt), getElem?_eq_none hl,
      getElem?_eq_none (Nat.le_of_lt hlt)]

lemma deletesOf_rows {run run' : Run ρ} (h : k.rowDeletes = none)
    (h' : run'.sessions = run.sessions ++ [k]) : run'.deletesOf = run.deletesOf := by
  funext session
  rw [deletesOf_append h', h]
  split_ifs with hs
  · rw [hs, deletesOf, getElem?_eq_none (le_refl _)]
    rfl
  · rfl

variable {e : ρ → Except IcebergError Unit}

lemma deletesOf_insert {run run' : Run ρ} (h : run.sessions[s]? = some k) {row : ρ}
    (h' : run'.sessions = run.sessions.set s (k.insert e row).2) :
    run'.deletesOf = run.deletesOf := by
  funext other
  rw [deletesOf_set h h', insert_rowDeletes]
  split_ifs with ho
  · rw [ho, deletesOf, h]
    rfl
  · rfl

lemma stateOf_congr {run run' : Run ρ} (h : run'.deletesOf = run.deletesOf) :
    run'.stateOf = run.stateOf := by
  funext session
  rw [stateOf, stateOf, h]

lemma Sound.new : Sound (Run.new : Run ρ) :=
  ⟨Consistent.new, Refines.new, by simp [Run.new, stateOf, deletesOf],
    by simp [Run.new, stateOf, deletesOf]⟩

lemma nextModifyStateId_claim (s : ModifyStateId) (f : IcebergFileId) (pos : ℕ) (m : CommandId)
    (l : ℤ) : (g.claim s f pos m l).2.nextModifyStateId = g.nextModifyStateId := by
  obtain ⟨r, n, hr, hs⟩ := claim_step g s f pos m l
  rw [hr]
  cases hs <;> rfl

lemma handed_modifyStateId (own : RowDeleteState) (f : IcebergFileId)
    (r : Except IcebergError RowMutationClaim) :
    (own.handed f r).modifyStateId = own.modifyStateId := by
  rw [handed.eq_def]
  split <;> rfl

lemma nextModifyStateId_register (path : String) :
    (g.registerFile path).2.nextModifyStateId = g.nextModifyStateId := by
  obtain ⟨r, n, hr, hs⟩ := registerFile_step g path
  rw [hr]
  cases hs <;> rfl

lemma Sound.of_states {run run' : Run ρ} (h : Sound run) (hc : Consistent run'.registry)
    (hr : Refines run'.registry run'.table)
    (hn : run'.registry.nextModifyStateId = run.registry.nextModifyStateId)
    (hs : run'.stateOf = run.stateOf) : Sound run' := by
  refine ⟨hc, hr, ?_, ?_⟩
  · rw [hn, hs]
    exact h.ids
  · rw [hs]
    exact h.distinct

/-- The run after a callback that came to a claim. -/
structure ClaimedRun (encode : ρ → Except IcebergError Unit) (run run' : Run ρ) (session : ℕ)
    (own : RowDeleteState)
    (fileId : IcebergFileId) (position : ℕ) (command : CommandId)
    (result : Except IcebergError RowMutationClaim) (registry' : RelationRowRegistry)
    (callback : Callback ρ) : Prop where
  deletes : run.deletesOf session = some own
  registry : run'.registry = registry'
  deletes' : ∀ other, run'.deletesOf other =
    if other = session then some (own.handed fileId result) else run.deletesOf other
  sessions : run'.sessions.length = run.sessions.length
  cut : run'.cut = run.cut
  late : run'.late = run.late ∪ ({own.modifyStateId} ∩ run.cut)
  callbacks : run'.callbacks = run.callbacks ++ [callback]
  session : callback.session = session
  target : callback.target = (fileId, position)
  command : callback.command = command
  claim : callback.claim = some (result.map outcome)
  appended : callback.appended =
    callback.kind.successor encode (result.map outcome)

lemma step_mutate {run : Run ρ} (hs : run.sessions[s]? = some k)
    {kind : MutationKind ρ} {own : RowDeleteState} (ho : k.claimant kind = some own)
    (f : IcebergFileId) (pos : ℕ) (m : CommandId) (l : ℤ) :
    ∃ c, ClaimedRun encode run (run.step encode (.mutate s kind f pos m l)) s own f pos m
      (run.registry.claim own.modifyStateId f pos m l).1
      (run.registry.claim own.modifyStateId f pos m l).2 c := by
  have hm : Mutated encode k run.registry kind f pos m l own
      _ _ := mutate_claimant encode ho
  have hc := rowDeleteState_claim own run.registry f pos m l
  rw [step, hs]
  refine ⟨_, ?_, ?_, fun o => ?_, length_set, rfl, by simp only [ho], rfl, rfl, rfl, rfl, ?_, ?_⟩
  · rw [deletesOf, hs, bind_some, hm.deletes]
  · exact hm.registry'.trans (by rw [hc])
  · refine (deletesOf_set hs rfl o).trans ?_
    rw [hm.deletes', hc]
  · rw [ho, map_some, hc]
  · rw [hm.appended, hc]
    exact drop_left

inductive RunStep (encode : ρ → Except IcebergError Unit) (run : Run ρ) : Run ρ → Prop where
  | same : RunStep encode run run
  | registered (path : String) : RunStep encode run
    { run with
      registry := (run.registry.registerFile path).2
      table := run.table.register path }
  | rolledBack (targetLevel : ℤ) : RunStep encode run (run.step encode (.rollback targetLevel))
  | promoted (fromLevel : ℤ) : RunStep encode run (run.step encode (.promote fromLevel))
  | sessions (sessions : List (MutationSinks ρ))
    (hlength : run.sessions.length ≤ sessions.length)
    (h : deletesOf { run with sessions := sessions } = run.deletesOf) :
    RunStep encode run { run with sessions := sessions }
  | begun (sinks : MutationSinks ρ)
    (h : sinks.rowDeletes = some ⟨run.registry.nextModifyStateId, []⟩) : RunStep encode run
      { run with
        registry :=
          { run.registry with nextModifyStateId := run.registry.nextModifyStateId + 1 }
        sessions := run.sessions ++ [sinks] }
  | refused (callback : Callback ρ) (hsession : callback.session < run.sessions.length)
    (hclaim : callback.claim = none) (happended : callback.appended = []) :
    RunStep encode run { run with callbacks := run.callbacks ++ [callback] }
  | claimed (session : ℕ) (own : RowDeleteState) (fileId : IcebergFileId) (position : ℕ)
    (command : CommandId) (nestLevel : ℤ) (callback : Callback ρ) (run' : Run ρ)
    (h : ClaimedRun encode run run' session own fileId position command
      (run.registry.claim own.modifyStateId fileId position command nestLevel).1
      (run.registry.claim own.modifyStateId fileId position command nestLevel).2 callback)
    (htable : run'.table =
      (run.table.claim own.modifyStateId fileId position command nestLevel).2) :
    RunStep encode run run'

lemma openSession_step (run : Run ρ) (w d : Bool) :
    RunStep encode run (run.step encode (.openSession w d)) := by
  rw [step]
  have hst := openSinks_step (ρ := ρ) run.registry w d
  generalize openSinks (ρ := ρ) run.registry w d = r at hst ⊢
  obtain ⟨r, g⟩ := r
  cases hst with
  | refused e => exact .same
  | rows k hs => exact .sessions _ (by simp) (deletesOf_rows hs rfl)
  | deletes k hs => exact .begun k hs

lemma mutate_step (run : Run ρ) (s : ℕ) (kind : MutationKind ρ) (f : IcebergFileId) (pos : ℕ)
    (m : CommandId) (l : ℤ) : RunStep encode run (run.step encode (.mutate s kind f pos m l)) := by
  cases hs : run.sessions[s]? with
  | none =>
    rw [step, hs]
    exact .same
  | some k =>
    cases ho : k.claimant kind with
    | none =>
      obtain ⟨hl, hsa⟩ := List.getElem?_eq_some_iff.mp hs
      have hse : run.sessions.set s k = run.sessions := by rw [← hsa, set_getElem_self]
      simp only [step, hs, ho, mutate_refused ho, hse, map_none, drop_length]
      exact .refused _ hl rfl rfl
    | some own =>
      obtain ⟨c, hc⟩ := step_mutate encode hs ho f pos m l
      refine .claimed s own f pos m l c _ hc ?_
      simp only [step, hs, ho]

lemma Run.step_cases (run : Run ρ) (e : Event ρ) : RunStep encode run (run.step encode e) := by
  cases e with
  | registerFile p => exact .registered p
  | rollback t => exact .rolledBack t
  | promote f => exact .promoted f
  | openSession w d => exact openSession_step encode run w d
  | insert s row =>
    rw [step]
    split
    next k hs => exact .sessions _ (by simp) (deletesOf_insert hs rfl)
    next => exact .same
  | mutate s kind i pos m l =>
    exact mutate_step encode run s kind i pos m l

lemma Sound.claimed {run run' : Run ρ} (h : Sound run) {own : RowDeleteState}
    {f : IcebergFileId} {pos : ℕ} {m : CommandId} {l : ℤ} {c : Callback ρ}
    (hc : ClaimedRun e run run' s own f pos m (run.registry.claim own.modifyStateId f pos m l).1
      (run.registry.claim own.modifyStateId f pos m l).2 c)
    (ht : run'.table = (run.table.claim own.modifyStateId f pos m l).2) : Sound run' := by
  have hs : run.stateOf s = some own.modifyStateId := by rw [stateOf, hc.deletes, map_some]
  refine h.of_states ?_ ?_ ?_ (funext fun o => ?_)
  · rw [hc.registry]
    exact h.consistent.claim (h.ids s own.modifyStateId hs)
  · rw [hc.registry, ht]
    exact (h.refines.claim h.consistent own.modifyStateId f pos m l).2
  · rw [hc.registry, nextModifyStateId_claim]
  · rw [stateOf, hc.deletes']
    split_ifs with ho
    · rw [ho, hs, map_some, handed_modifyStateId]
    · rfl

lemma Sound.begun {run : Run ρ} (h : Sound run)
    (hsi : k.rowDeletes = some ⟨run.registry.nextModifyStateId, []⟩) :
    Sound { run with
      registry := { run.registry with nextModifyStateId := run.registry.nextModifyStateId + 1 }
      sessions := run.sessions ++ [k] } := by
  have hst (other : ℕ) : stateOf { run with
        registry := { run.registry with nextModifyStateId := run.registry.nextModifyStateId + 1 }
        sessions := run.sessions ++ [k] } other =
      if other = run.sessions.length then some run.registry.nextModifyStateId
      else run.stateOf other := by
    rw [stateOf, deletesOf_append rfl, hsi]
    split_ifs <;> rfl
  refine ⟨?_, ?_, fun s t hs => ?_, fun s other t hs ho => ?_⟩
  · exact ⟨h.consistent.fileIds, h.consistent.bounded, h.consistent.states,
      fun f o how => Nat.lt_succ_of_lt (h.consistent.known f o how),
      h.consistent.handles, h.consistent.unshared⟩
  · exact ⟨h.refines.paths, h.refines.touched, h.refines.taken⟩
  · rw [hst] at hs
    split_ifs at hs
    · rw [← Option.some.inj hs]
      exact Nat.lt_succ_self _
    · exact Nat.lt_succ_of_lt (h.ids s t hs)
  · rw [hst] at hs ho
    split_ifs at hs ho with hf hse hse
    · rw [hf, hse]
    · rw [← Option.some.inj hs] at ho
      exact absurd (h.ids other _ ho) (lt_irrefl _)
    · rw [← Option.some.inj ho] at hs
      exact absurd (h.ids s _ hs) (lt_irrefl _)
    · exact h.distinct s other t hs ho

lemma Sound.step {run run' : Run ρ} (h : Sound run) (hst : RunStep e run run') : Sound run' := by
  cases hst with
  | same => exact h
  | registered path =>
    exact h.of_states (h.consistent.register path) (h.refines.register h.consistent path)
      (nextModifyStateId_register run.registry path) rfl
  | rolledBack t => exact h.of_states (h.consistent.rollback t) (h.refines.rollback t) rfl rfl
  | promoted f => exact h.of_states (h.consistent.promote f) (h.refines.promote f) rfl rfl
  | sessions sessions _ hd => exact h.of_states h.consistent h.refines rfl (stateOf_congr hd)
  | begun k hs => exact h.begun hs
  | refused => exact ⟨h.consistent, h.refines, h.ids, h.distinct⟩
  | claimed _ _ _ _ _ _ _ _ hc ht => exact h.claimed hc ht

/-- What holds at first and is kept by every event of a sound run holds after any run. -/
lemma Run.run_induction {motive : Run ρ → Prop} (new : motive .new)
    (s : ∀ run run', RunStep encode run run' → Sound run → motive run → motive run')
    (es : List (Event ρ)) : Sound (run encode es) ∧ motive (run encode es) := by
  induction es using reverseRecOn with
  | nil => exact ⟨Sound.new, new⟩
  | append_singleton es e ih =>
    rw [run, foldl_append]
    have hs := step_cases encode (run encode es) e
    exact ⟨ih.1.step hs, s _ _ hs ih.1 ih.2⟩

lemma Sound.run (es : List (Event ρ)) : Sound (run encode es) :=
  (run_induction encode (motive := fun _ => True) trivial (fun _ _ _ _ _ => trivial) es).1

end LagoDB.RowClaims
