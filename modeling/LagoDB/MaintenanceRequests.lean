import LagoDB.CommitSafety

/-!
# Maintenance requests

Every commit that changes data leaves a deadline in the catalog row, and a VACUUM
clears it. A VACUUM remembers the location and the deadline it started from; by the
time it commits, other writers and the scheduler may have moved either one. The
scheduler defers a deadline with an optimistic tuple update of its own.
-/
namespace LagoDB.MaintenanceRequests

open MetadataCommit List Option Committer Function

variable {R ι κ : Type}

/-! ## Backends and the scheduler -/

/-- What a backend is about to commit. A write that changes data proposes a deadline. -/
inductive Job where
  | write (dueAt : Option ℤ)
  | vacuum
  deriving DecidableEq

structure Backend (R : Type) where
  job : Job
  relid : ℕ
  maxRetries : ℕ
  truncateGuard : Option Location
  nestLevel : ℕ
  onAbort : R → Option R

/-- The plan of a VACUUM carries its completion token. -/
def Backend.coordinator (backend : Backend R) (token : Option CompletionToken) :
    Coordinator R where
  relid := backend.relid
  maxRetries := backend.maxRetries
  truncateGuard := backend.truncateGuard
  exclusiveAction :=
    match backend.job with
    | .write _ => none
    | .vacuum => token
  writeSchedule :=
    match backend.job with
    | .write (some dueAt) => .scheduleNoLaterThan dueAt
    | .write none | .vacuum => .preserve
  nestLevel := backend.nestLevel
  onAbort := backend.onAbort

structure MaintenanceCandidate where
  metadataLocation : Option Location
  dueAt : ℤ
  deriving DecidableEq

variable (catalog : Option MetadataTuple)

/-- The scan of `defer_maintenance`: a row that is no longer the candidate is left alone. -/
def deferScan (candidate : MaintenanceCandidate) :
    Option MetadataTuple :=
  catalog.filter fun tuple =>
    decide (tuple.row.metadataLocation = candidate.metadataLocation ∧
      tuple.row.maintenanceDueAt = some candidate.dueAt)

/-- The optimistic tuple update of `defer_maintenance`. -/
def deferWrite (old : MetadataTuple) (retryAt : ℤ) :
    Option MetadataTuple :=
  if catalog.map (·.version) = some old.version then
    some ⟨old.version + 1, { old.row with maintenanceDueAt := some retryAt }⟩
  else catalog

/-! ## All of them together -/

/-- What happened to the catalog row, in order. A VACUUM completes with its tuple update. -/
inductive CatalogEvent where
  | published (location : Location) (changesData : Bool)
  | vacuumed (token : CompletionToken)

open CatalogEvent

def changesData (c : Coordinator R) : Bool :=
  match c.exclusiveAction, c.writeSchedule with
  | none, .scheduleNoLaterThan _ => true
  | _, _ => false

def eventsOf (c : Coordinator R) : Option CatalogWrite → List CatalogEvent
  | none => []
  | some write =>
    (c.exclusiveAction.map vacuumed).toList ++
      match write.published, write.row.metadataLocation with
      | some _, some location => [.published location (changesData c)]
      | _, _ => []

/-- `tokens` are those taken by a VACUUM so far, `deferrals` the tuples a deferral has
scanned and is about to replace, with the new deadline. `history` is a ghost. -/
structure Maintenance (ι κ R : Type) where
  system : System ι R
  tokens : ι → Option CompletionToken
  deferrals : κ → Option (MetadataTuple × ℤ)
  history : List CatalogEvent

def Maintenance.coordinators (backends : ι → Backend R) (s : Maintenance ι κ R) (i : ι) :
    Coordinator R :=
  (backends i).coordinator (s.tokens i)

def dueAt : Option ℤ := catalog.bind (·.row.maintenanceDueAt)

section Steps

variable [DecidableEq ι] [DecidableEq κ]

/-- A VACUUM reads the row once, before it plans. -/
def Maintenance.takeToken (s : Maintenance ι κ R) (i : ι) (token : CompletionToken) :
    Maintenance ι κ R :=
  { s with tokens := update s.tokens i (some token) }

def Maintenance.commit (backends : ι → Backend R) (s : Maintenance ι κ R) (i : ι)
    (outcome : Outcome R) : Maintenance ι κ R :=
  let c := s.coordinators backends i
  { s with
    system := s.system.commitStep (s.coordinators backends) i outcome
    history := s.history ++
      eventsOf c ((s.system.committers i).advance c s.system.catalog outcome).2 }

def Maintenance.scanDeferral (s : Maintenance ι κ R) (k : κ) (candidate : MaintenanceCandidate)
    (retryAt : ℤ) : Maintenance ι κ R :=
  { s with
    deferrals := update s.deferrals k
      ((deferScan s.system.catalog candidate).map fun tuple => (tuple, retryAt)) }

def Maintenance.writeDeferral (s : Maintenance ι κ R) (k : κ) : Maintenance ι κ R :=
  match s.deferrals k with
  | none => s
  | some (old, retryAt) =>
    { s with
      system := { s.system with catalog := deferWrite s.system.catalog old retryAt }
      deferrals := update s.deferrals k none }

inductive Step (backends : ι → Backend R) : Maintenance ι κ R → Maintenance ι κ R → Prop where
  | takeToken {s : Maintenance ι κ R} (i : ι) (tuple : MetadataTuple) (location : Location)
      (job : (backends i).job = .vacuum) (first : s.tokens i = none)
      (current : s.system.catalog = some tuple)
      (located : tuple.row.metadataLocation = some location) :
      Step backends s (s.takeToken i ⟨location, tuple.row.maintenanceDueAt⟩)
  | commit {s : Maintenance ι κ R} (i : ι) (outcome : Outcome R)
      (ready : (backends i).job = .vacuum → (s.tokens i).isSome)
      (fresh : FreshOutcome s.system i outcome) :
      Step backends s (s.commit backends i outcome)
  | scanDeferral {s : Maintenance ι κ R} (k : κ) (candidate : MaintenanceCandidate)
      (retryAt : ℤ) : Step backends s (s.scanDeferral k candidate retryAt)
  | writeDeferral {s : Maintenance ι κ R} (k : κ) : Step backends s (s.writeDeferral k)

structure Starts (s : Maintenance ι κ R) : Prop where
  system : Initial s.system
  tokens : ∀ i, s.tokens i = none
  deferrals : ∀ k, s.deferrals k = none
  history : s.history = []

inductive Runs (backends : ι → Backend R) (start : Maintenance ι κ R) :
    Maintenance ι κ R → Prop where
  | refl : Runs backends start start
  | step {s s' : Maintenance ι κ R} (reached : Runs backends start s)
      (next : Step backends s s') : Runs backends start s'

end Steps

/-! ## The history -/

def lastPublished (first : Option Location) (history : List CatalogEvent) : Option Location :=
  history.foldl (fun location event =>
    match event with
    | .published location _ => some location
    | .vacuumed _ => location) first

/-- A token taken at `location` or at one published after it. -/
def Covers (location : Location) (after : List CatalogEvent) (token : CompletionToken) : Prop :=
  token.metadataLocation = location ∨
    ∃ changes, published token.metadataLocation changes ∈ after

/-- Every commit that changed data is followed by a VACUUM that had seen it. -/
def Settled : List CatalogEvent → Prop
  | [] => True
  | .published location true :: after =>
    (∃ token, vacuumed token ∈ after ∧ Covers location after token) ∧ Settled after
  | _ :: after => Settled after

variable {after : List CatalogEvent}

lemma Settled.tail {e : CatalogEvent} (h : Settled (e :: after)) : Settled after := by
  cases e with
  | published x c =>
    cases c with
    | true => exact h.2
    | false => exact h
  | vacuumed t => exact h

variable {location x : Location} {o : CompletionToken}

lemma Covers.append (h : Covers x after o) (m : List CatalogEvent) :
    Covers x (after ++ m) o := by
  rcases h with hs | ⟨c, hm⟩
  · exact .inl hs
  · exact .inr ⟨c, mem_append_left m hm⟩

variable {history : List CatalogEvent}

lemma Settled.append {m : List CatalogEvent} (h : Settled history)
    (hm : ∀ x, published x true ∉ m) : Settled (history ++ m) := by
  induction history with
  | nil =>
    induction m with
    | nil => trivial
    | cons e r ih =>
      have hr : Settled ([] ++ r) := ih fun x hme => hm x (mem_cons_of_mem e hme)
      cases e with
      | published x c =>
        cases c with
        | true => exact absurd mem_cons_self (hm x)
        | false => exact hr
      | vacuumed t => exact hr
  | cons e after ih =>
    have ha := ih h.tail
    cases e with
    | published x c =>
      cases c with
      | true =>
        obtain ⟨t, hme, hc⟩ := h.1
        exact ⟨⟨t, mem_append_left m hme, hc.append m⟩, ha⟩
      | false => exact ha
    | vacuumed t => exact ha

variable (first : Option Location)

lemma lastPublished_mem (h : lastPublished first history = some x) :
    first = some x ∨ ∃ cs, published x cs ∈ history := by
  induction history generalizing first with
  | nil => exact .inl h
  | cons e rest ih =>
    cases e with
    | published published cs =>
      rcases ih (some published) h with hs | ⟨c', hm⟩
      · cases hs
        exact .inr ⟨cs, mem_cons_self⟩
      · exact .inr ⟨c', mem_cons_of_mem _ hm⟩
    | vacuumed t =>
      rcases ih first h with hs | ⟨cs, hm⟩
      · exact .inl hs
      · exact .inr ⟨cs, mem_cons_of_mem _ hm⟩

lemma settled_vacuumed (h : lastPublished first history = some o.metadataLocation) :
    Settled (history ++ [.vacuumed o]) := by
  induction history generalizing first with
  | nil => trivial
  | cons e r ih =>
    cases e with
    | published x c =>
      have hr := ih (some x) h
      cases c with
      | false => exact hr
      | true =>
        refine ⟨⟨o, by simp, ?_⟩, hr⟩
        have hc : Covers x r o := by
          rcases lastPublished_mem (some x) h with hs | hl
          · exact .inl (Option.some.inj hs).symm
          · exact .inr hl
        exact hc.append _
    | vacuumed ea => exact ih first h

lemma Settled.split {b : List CatalogEvent} (h : Settled (b ++ .published x true :: after)) :
    ∃ o, vacuumed o ∈ after ∧ Covers x after o := by
  induction b with
  | nil => exact h.1
  | cons e r ih => exact ih h.tail

/-! ## The schedule of an attempt -/

/-- The schedule was chosen for the base of the attempt, and a pending completion was
computed from the tuple it replaces. -/
def Scheduled (c : Coordinator R) : Phase → Prop
  | .materialize _ base schedule => schedule = c.schedule base
  | .casScan _ base schedule _ => schedule = c.schedule base
  | .casWrite _ base schedule _ _ => schedule = c.schedule base
  | .finishScan base schedule => schedule = c.schedule base
  | .finishWrite old row => ∃ base, old.row.metadataLocation = some base ∧
      finishRow old.row (c.schedule base) = .ok row
  | _ => True

section Advance

variable {c : Coordinator R} {cat : Option MetadataTuple} {m : Committer R}

lemma scheduled_discardThen (att : ℕ) {next : Phase} (h : Scheduled c next) :
    Scheduled c (m.discardThen c att next).phase := by
  unfold discardThen
  split
  · exact h
  · trivial

lemma scheduled_readLatest : Scheduled c (m.readLatest c cat).phase := by
  unfold readLatest
  cases cat with
  | none => trivial
  | some t =>
    cases hl : t.row.metadataLocation with
    | none =>
      simp only [hl]
      trivial
    | some l =>
      simp only [hl]
      split_ifs with hg
      · trivial
      · cases m.ledger.beginAttempt c.nestLevel with
        | error error => trivial
        | ok b => rfl

variable (out : Outcome R)

lemma scheduled_head : Scheduled c (m.head c cat out).phase := by
  unfold Committer.head
  split_ifs with hmax
  · trivial
  · cases out with
    | fail e => trivial
    | ok | materialized => exact scheduled_readLatest

variable {att : ℕ} {base : Location} {d : MaintenanceScheduleUpdate}

lemma scheduled_materialized (h : d = c.schedule base) (x : Location) (rs : List R) :
    Scheduled c (m.materialized c att base d x rs).phase := by
  unfold materialized
  by_cases hs : x = base
  · simp only [if_pos hs]
    refine scheduled_discardThen att ?_
    split_ifs with he
    · exact h
    · trivial
  · simp only [if_neg hs]
    exact h

lemma scheduled_casScan {new : Location} (h : d = c.schedule base) :
    Scheduled c (m.casScan c cat att base d new).phase := by
  unfold casScan
  cases cat with
  | none => trivial
  | some t =>
    dsimp only
    split_ifs with hb
    · exact scheduled_discardThen att trivial
    · exact h

variable {old : MetadataTuple}

lemma scheduled_casWrite {new : Location} :
    Scheduled c (m.casWrite c cat att base d new old).1.phase := by
  unfold casWrite
  split_ifs with hv
  · trivial
  · exact scheduled_discardThen att trivial

lemma scheduled_promote (att : ℕ) (a : Bool) : Scheduled c (m.promote c att a).phase := by
  unfold promote
  split <;> trivial

lemma scheduled_finishScan (h : d = c.schedule base) :
    Scheduled c (m.finishScan c cat base d).phase := by
  unfold finishScan
  cases cat with
  | none => trivial
  | some t =>
    dsimp only
    split_ifs with hb
    · trivial
    · cases hr : finishRow t.row d with
      | error error => trivial
      | ok row => exact ⟨base, not_not.mp hb, h ▸ hr⟩

lemma scheduled_finishWrite {row : MetadataRow} :
    Scheduled c (m.finishWrite cat old row).1.phase := by
  unfold finishWrite
  split_ifs <;> trivial

lemma scheduled_advance (h : Scheduled c m.phase) : Scheduled c (m.advance c cat out).1.phase := by
  unfold advance
  cases hp : m.phase with
  | loop => exact scheduled_head out
  | materialize att base d =>
    rw [hp] at h
    cases out with
    | ok =>
      rw [hp]
      exact h
    | fail e => trivial
    | materialized x r => exact scheduled_materialized h x r
  | casScan att base d new =>
    rw [hp] at h
    cases out with
    | fail e => trivial
    | ok | materialized => exact scheduled_casScan h
  | casWrite att base d new old =>
    cases out with
    | fail e => trivial
    | ok | materialized => exact scheduled_casWrite
  | promote att a => exact scheduled_promote att a
  | finishScan base d =>
    rw [hp] at h
    cases out with
    | fail e => trivial
    | ok | materialized => exact scheduled_finishScan h
  | finishWrite old row =>
    cases out with
    | fail e => trivial
    | ok | materialized => exact scheduled_finishWrite
  | report a => cases out <;> trivial
  | done re => trivial

/-- A tuple update replaces the current row, by the schedule chosen for its location. -/
inductive Writes (c : Coordinator R) (catalog : Option MetadataTuple) :
    Option CatalogWrite → Prop where
  | nothing : Writes c catalog none
  | publishes (tuple : MetadataTuple) (attempt : ℕ) (base new : Location)
      (hcatalog : catalog = some tuple) (hbase : tuple.row.metadataLocation = some base) :
      Writes c catalog (some ⟨casRow tuple.row new base (c.schedule base), some (attempt, base)⟩)
  | finishes (tuple : MetadataTuple) (base : Location) (row : MetadataRow)
      (hcatalog : catalog = some tuple) (hbase : tuple.row.metadataLocation = some base)
      (hrow : finishRow tuple.row (c.schedule base) = .ok row) :
      Writes c catalog (some ⟨row, none⟩)

lemma advance_writes (hl : Local c m) (hh : ∀ old ∈ m.phase.held, Holds cat old)
    (hs : Scheduled c m.phase) : Writes c cat (m.advance c cat out).2 := by
  have t : Transition c cat out m _ _ := advance_transition out hl.ledger
  generalize (m.advance c cat out).1 = m', (m.advance c cat out).2 = write at t
  cases t with
  | published att base new d old u hp hc hv =>
    rw [hp] at hh hs
    obtain rfl := (hh old rfl).current hc hv
    have hco := hl.consistent
    rw [hp] at hco
    obtain rfl : d = c.schedule base := hs
    exact .publishes old att base new hc hco
  | finishWritten old u row hp hc hv =>
    rw [hp] at hh hs
    obtain rfl := (hh old rfl).current hc hv
    obtain ⟨base, hb, hr⟩ := hs
    exact .finishes old base row hc hb hr
  | _ => exact .nothing

end Advance

/-- The only ways to end up without a deadline. -/
def Clears (schedule : MaintenanceScheduleUpdate) (due : Option ℤ) : Prop :=
  due = none ∧ (∀ proposed, schedule ≠ .scheduleNoLaterThan proposed) ∨
    schedule = .completeIfDueMatches due

variable {d : MaintenanceScheduleUpdate} {due : Option ℤ}

lemma clears_casDue (h : (casDue due d).2 = none) : Clears d due := by
  cases d with
  | preserve => exact .inl ⟨h, by simp⟩
  | scheduleNoLaterThan p =>
    exfalso
    cases due with
    | none => simp [casDue] at h
    | some c =>
      simp only [casDue] at h
      split_ifs at h
  | completeIfDueMatches e =>
    by_cases hm : due = e
    · exact .inr (by rw [hm])
    · refine .inl ⟨?_, by simp⟩
      simpa [casDue, hm] using h

lemma clears_finishRow {row row' : MetadataRow} (hr : finishRow row d = .ok row')
    (h : row'.maintenanceDueAt = none) : Clears d row.maintenanceDueAt := by
  cases d with
  | preserve =>
    cases hr
    exact .inl ⟨h, by simp⟩
  | scheduleNoLaterThan p => cases hr
  | completeIfDueMatches e =>
    cases hr
    by_cases hm : row.maintenanceDueAt = e
    · exact .inr (by rw [hm])
    · rw [if_neg hm] at h
      exact .inl ⟨h, by simp⟩

attribute [local simp] Backend.coordinator Coordinator.schedule

lemma clears_schedule {b : Backend R} {o : Option CompletionToken} {base : Location}
    (h : Clears ((b.coordinator o).schedule base) due) :
    due = none ∧ changesData (b.coordinator o) = false ∨
      ∃ t, b.job = .vacuum ∧ o = some t ∧ t.metadataLocation = base ∧ due = t.maintenanceDueAt := by
  cases hj : b.job with
  | write p =>
    left
    cases p with
    | none =>
      rcases h with ⟨hn, -⟩ | hc
      · exact ⟨hn, by simp [changesData, hj]⟩
      · simp [hj] at hc
    | some p =>
      rcases h with ⟨-, hnot⟩ | hc
      · exact absurd (by simp [hj]) (hnot p)
      · simp [hj] at hc
  | vacuum =>
    have hch : changesData (b.coordinator o) = false := by cases o <;> simp [changesData, hj]
    rcases h with ⟨hn, -⟩ | hc
    · exact .inl ⟨hn, hch⟩
    · cases o with
      | none => simp [hj] at hc
      | some t =>
        simp only [Coordinator.schedule, Backend.coordinator, hj] at hc
        split_ifs at hc with hb
        obtain rfl := MaintenanceScheduleUpdate.completeIfDueMatches.inj hc
        exact .inr ⟨t, rfl, rfl, hb, rfl⟩

/-! ## One tuple update -/

section Update

variable {b : Backend R} {o : Option CompletionToken} {cat : Option MetadataTuple}
  {write : Option CatalogWrite}

lemma Writes.cleared (h : Writes (b.coordinator o) cat write)
    (hs : write.isSome) (hn : dueAt (writeCatalog cat write) = none) :
    dueAt cat = none ∧ changesData (b.coordinator o) = false ∨
      ∃ taken, b.job = .vacuum ∧ o = some taken ∧
        currentLocation cat = some taken.metadataLocation ∧ dueAt cat = taken.maintenanceDueAt := by
  have hcl : ∃ t base, cat = some t ∧ t.row.metadataLocation = some base ∧
      Clears ((b.coordinator o).schedule base) t.row.maintenanceDueAt := by
    cases h with
    | nothing => cases hs
    | publishes t att base new hc hb =>
      subst hc
      exact ⟨t, base, rfl, hb, clears_casDue hn⟩
    | finishes t base row hc hb hr =>
      subst hc
      exact ⟨t, base, rfl, hb, clears_finishRow hr hn⟩
  obtain ⟨t, base, rfl, hb, hcl⟩ := hcl
  rcases clears_schedule hcl with hk | ⟨taken, hj, ht, rfl, hd⟩
  · exact .inl hk
  · exact .inr ⟨taken, hj, ht, hb, hd⟩

lemma eventsOf_changes {c : Coordinator R} (hc : changesData c = false)
    (write : Option CatalogWrite) (x : Location) :
    published x true ∉ eventsOf c write := by
  cases write with
  | none => simp [eventsOf]
  | some write =>
    simp only [eventsOf, hc, mem_append, not_or]
    refine ⟨?_, ?_⟩
    · cases c.exclusiveAction <;> simp
    · split <;> simp

variable {i : List CatalogEvent} {first : Option Location}

lemma Writes.current (h : Writes (b.coordinator o) cat write)
    (hcu : currentLocation cat = lastPublished first i) :
    currentLocation (writeCatalog cat write) =
      lastPublished first (i ++ eventsOf (b.coordinator o) write) := by
  cases h with
  | nothing =>
    rw [eventsOf, append_nil, ← hcu]
    cases cat <;> rfl
  | publishes t att base new hc hb =>
    subst hc
    simp [writeCatalog, currentLocation, casRow, eventsOf, lastPublished]
  | finishes t base row hc hb hr =>
    subst hc
    have hl := finishRow_locations hr
    have hv : lastPublished first (i ++
        eventsOf (b.coordinator o) (some ⟨row, none⟩)) = lastPublished first i := by
      unfold lastPublished eventsOf
      cases (b.coordinator o).exclusiveAction <;> simp
    rw [hv, ← hcu]
    exact hl.1

lemma Writes.settled (h : Writes (b.coordinator o) cat write)
    (hcu : currentLocation cat = lastPublished first i) (hs : dueAt cat = none → Settled i)
    (hn : dueAt (writeCatalog cat write) = none) :
    Settled (i ++ eventsOf (b.coordinator o) write) := by
  cases hw : write with
  | none =>
    rw [hw] at hn
    rw [eventsOf, append_nil]
    refine hs ?_
    cases cat <;> exact hn
  | some u =>
    have hso : write.isSome := by rw [hw]; rfl
    rw [← hw]
    rcases h.cleared hso hn with ⟨hd, hc⟩ | ⟨taken, hj, ht, hl, -⟩
    · exact (hs hd).append (eventsOf_changes hc write)
    · -- the token names the current location, so it covers everything published so far
      have hc : changesData (b.coordinator o) = false := by simp [changesData, hj, ht]
      have hv := settled_vacuumed first (hcu.symm.trans hl)
      have he := eventsOf_changes hc write
      have hexc : (b.coordinator o).exclusiveAction = some taken := by simp [hj, ht]
      rw [hw] at he ⊢
      simp only [eventsOf, hexc, map_some, toList_some] at he ⊢
      rw [← append_assoc]
      refine hv.append fun x hm => he x ?_
      exact mem_append_right _ hm

end Update

/-! ## Every run -/

section Runs

variable [DecidableEq ι] [DecidableEq κ] {bs : ι → Backend R}

structure Kept (backends : ι → Backend R) (first : Option Location) (s : Maintenance ι κ R) :
    Prop where
  inv : Inv (s.coordinators backends) first s.system
  scheduled : ∀ i, Scheduled (s.coordinators backends i) (s.system.committers i).phase
  waiting : ∀ i, (backends i).job = .vacuum → s.tokens i = none →
    (s.system.committers i).phase = .loop
  deferrals : ∀ k old retryAt, s.deferrals k = some (old, retryAt) → Holds s.system.catalog old
  current : currentLocation s.system.catalog = lastPublished first s.history
  settled : dueAt s.system.catalog = none → Settled s.history

variable {s : Maintenance ι κ R}

omit [DecidableEq ι] [DecidableEq κ] in
lemma Kept.start (h : Starts s) : Kept bs (currentLocation s.system.catalog) s where
  inv := inv_initial h.system
  scheduled i := by
    rw [h.system.phase i]
    trivial
  waiting i _ _ := h.system.phase i
  deferrals k old retryAt hh := by simp [h.deferrals k] at hh
  current := by rw [h.history]; rfl
  settled _ := by rw [h.history]; trivial

variable {first : Option Location}

omit [DecidableEq ι] in
lemma inv_congr {c c' : ι → Coordinator R} {s : System ι R} (h : Inv c first s)
    (hr : ∀ i, (c' i).maxRetries = (c i).maxRetries)
    (hg : ∀ i, (c' i).truncateGuard = (c i).truncateGuard) : Inv c' first s where
  committer i := by
    have hl := h.committer i
    exact ⟨hl.ledger, by rw [hr i]; exact hl.retries, hl.count,
      by rw [hg i]; exact hl.guard, hl.consistent⟩
  held := h.held
  chain := h.chain
  guard p hp := by
    rw [hg p.owner]
    exact h.guard p hp
  published := h.published
  settled := h.settled
  once := h.once

omit [DecidableEq κ] in
lemma Kept.commit (h : Kept bs first s) (i : ι) (out : Outcome R)
    (ready : (bs i).job = .vacuum → (s.tokens i).isSome) (f : FreshOutcome s.system i out) :
    Kept bs first (s.commit bs i out) := by
  have hw := advance_writes out (h.inv.committer i) (h.inv.held i) (h.scheduled i)
  refine ⟨h.inv.step (.commit i out f), fun j => ?_, fun j hj ht => ?_,
    fun k old r hh => (h.deferrals k old r hh).afterWrite _,
    hw.current h.current, hw.settled h.current h.settled⟩
  · by_cases hs : j = i
    · subst hs
      simp only [Maintenance.commit, System.commitStep, update_self]
      exact scheduled_advance out (h.scheduled j)
    · simp only [Maintenance.commit, System.commitStep, update_of_ne hs]
      exact h.scheduled j
  · have hne : j ≠ i := by
      rintro rfl
      have hn : s.tokens j = none := ht
      have hso := ready hj
      rw [hn] at hso
      cases hso
    simp only [Maintenance.commit, System.commitStep, update_of_ne hne]
    exact h.waiting j hj ht

omit [DecidableEq κ] in
lemma Kept.takeToken (h : Kept bs first s) (i : ι) (o : CompletionToken)
    (hj : (bs i).job = .vacuum) (hf : s.tokens i = none) : Kept bs first (s.takeToken i o) := by
  refine ⟨inv_congr h.inv (fun _ => rfl) fun _ => rfl, fun j => ?_, fun j hv ht => ?_,
    h.deferrals, h.current, h.settled⟩
  · by_cases hs : j = i
    · subst hs
      change Scheduled _ (s.system.committers j).phase
      rw [h.waiting j hj hf]
      trivial
    · have hsc := h.scheduled j
      simpa only [Maintenance.coordinators, Maintenance.takeToken, update_of_ne hs] using hsc
  · by_cases hs : j = i
    · subst hs
      simp [Maintenance.takeToken] at ht
    · simp only [Maintenance.takeToken, update_of_ne hs] at ht
      exact h.waiting j hv ht

omit [DecidableEq ι] in
lemma Kept.scanDeferral (h : Kept bs first s) (k : κ) (c : MaintenanceCandidate) (r : ℤ) :
    Kept bs first (s.scanDeferral k c r) := by
  refine ⟨h.inv, h.scheduled, h.waiting, fun k' old ra' hh => ?_, h.current, h.settled⟩
  by_cases hs : k' = k
  · subst hs
    simp only [Maintenance.scanDeferral, update_self, map_eq_some_iff] at hh
    obtain ⟨t, hsc, hp⟩ := hh
    obtain ⟨rfl, rfl⟩ := Prod.mk.inj hp
    obtain ⟨hc, -⟩ := filter_eq_some_iff.mp hsc
    exact ⟨t, hc, le_refl _, fun _ => rfl⟩
  · simp only [Maintenance.scanDeferral, update_of_ne hs] at hh
    exact h.deferrals k' old ra' hh

lemma Kept.writeDeferral (h : Kept bs first s) (k : κ) : Kept bs first (s.writeDeferral k) := by
  unfold Maintenance.writeDeferral
  cases hd : s.deferrals k with
  | none => exact h
  | some held =>
    obtain ⟨old, r⟩ := held
    have ho : ∀ k' old' ra', update s.deferrals k none k' = some (old', ra') →
          Holds s.system.catalog old' := by
      intro k' old' ra' hh
      by_cases hs : k' = k
      · subst hs
        simp at hh
      · rw [update_of_ne hs] at hh
        exact h.deferrals k' old' ra' hh
    dsimp only
    unfold deferWrite
    split_ifs with hv
    · obtain ⟨t, hc, hs⟩ := version_eq_some hv
      obtain rfl := (h.deferrals k old r hd).current hc hs
      refine ⟨h.inv.step (.reschedule old (some r) hc), h.scheduled, h.waiting,
        fun k' old' ra' hh => (ho k' old' ra' hh).replaced hc _, ?_, fun hn => ?_⟩
      · have hcu := h.current
        rw [hc] at hcu
        exact hcu
      · cases hn
    · exact ⟨h.inv, h.scheduled, h.waiting, ho, h.current, h.settled⟩

variable {s' : Maintenance ι κ R}

lemma Kept.step (h : Kept bs first s) (next : Step bs s s') : Kept bs first s' := by
  cases next with
  | takeToken i t x job u c l => exact h.takeToken i _ job u
  | commit i o r f => exact h.commit i o r f
  | scanDeferral k ca a => exact h.scanDeferral k ca a
  | writeDeferral k => exact h.writeDeferral k

variable {t : Maintenance ι κ R}

lemma Kept.runs (hs : Starts t) (h : Runs bs t s) :
    Kept bs (currentLocation t.system.catalog) s := by
  induction h with
  | refl => exact Kept.start hs
  | step r n ih => exact ih.step n

lemma Kept.cleared (h : Kept bs first s) (next : Step bs s s') (hdu : dueAt s.system.catalog ≠ none)
    (hn : dueAt s'.system.catalog = none) :
    ∃ i out o, s' = s.commit bs i out ∧ (bs i).job = .vacuum ∧ s.tokens i = some o ∧
      currentLocation s.system.catalog = some o.metadataLocation ∧
      dueAt s.system.catalog = o.maintenanceDueAt := by
  cases next with
  | takeToken | scanDeferral => exact absurd hn hdu
  | writeDeferral k =>
    exfalso
    unfold Maintenance.writeDeferral at hn
    cases hd : s.deferrals k with
    | none =>
      rw [hd] at hn
      exact hdu hn
    | some held =>
      simp only [hd, deferWrite] at hn
      split_ifs at hn with hv
      · cases hn
      · exact hdu hn
  | commit i out r f =>
    have hwr := advance_writes out (h.inv.committer i) (h.inv.held i) (h.scheduled i)
    have hso : ((s.system.committers i).advance (s.coordinators bs i) s.system.catalog
        out).2.isSome := by
      by_contra hw
      rw [not_isSome_iff_eq_none] at hw
      simp only [Maintenance.commit, System.commitStep, hw] at hn
      refine hdu ?_
      cases hc : s.system.catalog <;> simpa [hc, writeCatalog] using hn
    rcases hwr.cleared hso hn with ⟨ha, -⟩ | ⟨o, hj, ht, hl, hs⟩
    · exact absurd ha hdu
    · exact ⟨i, out, o, rfl, hj, ht, hl, hs⟩

/-- No maintenance request is lost: as long as no VACUUM that has seen a commit completes,
the commit's request stands; and the deadline is cleared by a VACUUM only, over the
location and the deadline of its token. -/
structure RequestsKept (backends : ι → Backend R) (s : Maintenance ι κ R) : Prop where
  pending : ∀ before location after,
    s.history = before ++ .published location true :: after →
    (∀ token, vacuumed token ∈ after → ¬ Covers location after token) →
    dueAt s.system.catalog ≠ none
  cleared : ∀ s', Step backends s s' → dueAt s.system.catalog ≠ none →
    dueAt s'.system.catalog = none →
    ∃ i outcome token, s' = s.commit backends i outcome ∧ (backends i).job = .vacuum ∧
      s.tokens i = some token ∧
      currentLocation s.system.catalog = some token.metadataLocation ∧
      dueAt s.system.catalog = token.maintenanceDueAt

theorem runs_requestsKept (backends : ι → Backend R) (start s : Maintenance ι κ R)
    (hstart : Starts start) (h : Runs backends start s) : RequestsKept backends s := by
  have hk := Kept.runs hstart h
  refine ⟨fun b location after hh hu hn => ?_, fun s' next => ?_⟩
  · have hs := hk.settled hn
    rw [hh] at hs
    obtain ⟨token, hm, hc⟩ := hs.split
    exact hu token hm hc
  · exact hk.cleared next

def Maintenance.commits (backends : ι → Backend R) (s : Maintenance ι κ R)
    (script : List (ι × Outcome R)) : Maintenance ι κ R :=
  script.foldl (fun s next => s.commit backends next.1 next.2) s

def Permitted (backends : ι → Backend R) :
    Maintenance ι κ R → List (ι × Outcome R) → Prop
  | _, [] => True
  | s, next :: rest =>
    ((backends next.1).job = .vacuum → (s.tokens next.1).isSome) ∧
      FreshOutcome s.system next.1 next.2 ∧
        Permitted backends (s.commit backends next.1 next.2) rest

lemma Runs.commits (h : Runs bs t s) (script : List (ι × Outcome R)) (hp : Permitted bs s script) :
    Runs bs t (s.commits bs script) := by
  induction script generalizing s with
  | nil => exact h
  | cons n rest ih =>
    obtain ⟨r, f, hr⟩ := hp
    exact ih (h.step (.commit n.1 n.2 r f)) hr

end Runs

/-! ## A deferred deadline -/

def demoBackends : Bool → Backend Unit
  | false => ⟨.write (some 10), 7, 3, none, 1, fun _ => none⟩
  | true => ⟨.vacuum, 7, 3, none, 1, fun _ => none⟩

def demoStart : Maintenance Bool Unit Unit := ⟨raceStart, fun _ => none, fun _ => none, []⟩

/-- The writer publishes `m1` and asks for maintenance. -/
def demoWritten : Maintenance Bool Unit Unit :=
  demoStart.commits demoBackends [(false, .ok), (false, .materialized "m1" []), (false, .ok),
    (false, .ok), (false, .ok), (false, .ok)]

/-- The VACUUM takes its token, then the scheduler defers the deadline. -/
def demoDeferred : Maintenance Bool Unit Unit :=
  ((demoWritten.takeToken true ⟨"m1", some 10⟩).scanDeferral () ⟨some "m1", 10⟩ 20).writeDeferral ()

def demoVacuumed : Maintenance Bool Unit Unit :=
  demoDeferred.commits demoBackends [(true, .ok), (true, .materialized "m2" []), (true, .ok),
    (true, .ok), (true, .ok), (true, .ok)]

theorem demoVacuumed_requestsKept :
    currentLocation demoVacuumed.system.catalog = some "m2" ∧
      dueAt demoVacuumed.system.catalog = some 20 ∧ RequestsKept demoBackends demoVacuumed := by
  have hw : Runs demoBackends demoStart demoWritten :=
    Runs.commits .refl _ (by simp only [Permitted, and_true]; decide)
  have ht := hw.step (.takeToken true ⟨1, ⟨some "m1", some "m0", some 10⟩⟩ "m1" rfl rfl
    rfl rfl)
  have hd : Runs demoBackends demoStart demoDeferred :=
    (ht.step (.scanDeferral () ⟨some "m1", 10⟩ 20)).step (.writeDeferral ())
  have hv : Runs demoBackends demoStart demoVacuumed :=
    hd.commits _ (by simp only [Permitted, and_true]; decide)
  refine ⟨rfl, rfl, runs_requestsKept demoBackends demoStart demoVacuumed ?_ hv⟩
  exact ⟨raceStart_initial, fun _ => rfl, fun _ => rfl, rfl⟩

end LagoDB.MaintenanceRequests
