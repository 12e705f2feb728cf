import LagoDB.MetadataCommit

/-!
# No metadata update is lost

The committers of one relation interleave arbitrarily. Each successful
`cas_update` replaces exactly the location its metadata was built on, so the
publications form one chain; an attempt is promoted if and only if it is in that
chain.
-/
namespace LagoDB.MetadataCommit

open List Phase Committer

variable {R ι : Type}

/-! ## The invariant of one committer -/

/-- A pending update still describes the tuple it was built from. -/
def Phase.Consistent : Phase → Prop
  | .casWrite _ base _ _ old => old.row.metadataLocation = some base
  | .finishWrite old row =>
    row.metadataLocation = old.row.metadataLocation ∧
      row.previousMetadataLocation = old.row.previousMetadataLocation
  | _ => True

structure Local (c : Coordinator R) (m : Committer R) : Prop where
  ledger : m.ledger.Valid m.phase.attempt
  retries : m.retries ≤ c.maxRetries + 1
  count : m.ledger.begun.length ≤ m.retries
  guard : ∀ base ∈ m.phase.base, ∀ g ∈ c.truncateGuard, g = base
  consistent : m.phase.Consistent

lemma finishRow_locations {row row' : MetadataRow} {s : MaintenanceScheduleUpdate}
    (h : finishRow row s = .ok row') :
    row'.metadataLocation = row.metadataLocation ∧
      row'.previousMetadataLocation = row.previousMetadataLocation := by
  cases s with
  | preserve =>
    cases h
    exact ⟨rfl, rfl⟩
  | scheduleNoLaterThan d => cases h
  | completeIfDueMatches e =>
    cases h
    split_ifs <;> exact ⟨rfl, rfl⟩

section Transitions

variable {c : Coordinator R} {cat : Option MetadataTuple} {out : Outcome R} {m m' : Committer R}
  {write : Option CatalogWrite} {next : Phase} {e : Ledger R}

lemma Local.enters (h : Local c m) (hl : e.Valid next.attempt) (hb : e.begun = m.ledger.begun)
    (hba : next.base = none) (hc : next.Consistent) :
    Local c { m with phase := next, ledger := e } :=
  ⟨hl, h.retries, by rw [hb]; exact h.count, by simp [hba], hc⟩

lemma Local.continues (h : Local c m) (ha : m.phase.attempt = next.attempt)
    (hb : next.base = none) (hc : next.Consistent) : Local c { m with phase := next } :=
  h.enters (ha ▸ h.ledger) rfl hb hc

lemma Local.transition (h : Local c m) (t : Transition c cat out m m' write) : Local c m' := by
  cases t with
  | stutter => exact h
  | exhausted hp hm => exact h.continues (by rw [hp]; rfl) rfl trivial
  | refused e hp hm =>
    have hl := h.ledger
    rw [hp] at hl
    exact ⟨hl, Nat.succ_le_succ hm, h.count.trans (Nat.le_succ _), by simp [base], trivial⟩
  | begun u l a ledger hp hm hc hla hgu hbe =>
    refine ⟨hbe.valid, Nat.succ_le_succ hm, ?_, ?_, trivial⟩
    · rw [hbe.begun, length_append]
      exact Nat.succ_le_succ h.count
    · intro base hb g hg
      obtain rfl : l = base := by simpa [Phase.base] using hb
      exact hgu g hg
  | abandoned a e ledger ha hpu hr => exact h.enters hr.valid hr.begun rfl trivial
  | unchanged a next ledger ha hpu hn hr =>
    rcases hn with ⟨base, s, rfl⟩ | rfl <;> exact h.enters hr.valid hr.begun rfl trivial
  | materialized a base new s r hp hnew hne =>
    obtain ⟨hl, hre, hco, hgu, -⟩ := h
    rw [hp] at hl hgu
    exact ⟨hl.track r, hre, hco, hgu, trivial⟩
  | rebased a ledger ha hpu hr => exact h.enters hr.valid hr.begun rfl trivial
  | scanned a base new s u hp hc hb =>
    obtain ⟨hl, hre, hco, hgu, -⟩ := h
    rw [hp] at hl hgu
    exact ⟨hl, hre, hco, hgu, hb⟩
  | published a base new s old u hp hc hv => exact h.continues (by rw [hp]; rfl) rfl trivial
  | promoted a d ledger hp hr => exact h.enters hr.valid hr.begun rfl trivial
  | finishScanned base s u row hp hc hro =>
    exact h.continues (by rw [hp]; rfl) rfl (finishRow_locations hro)
  | finishWritten old u row hp hc hv => exact h.continues (by rw [hp]; rfl) rfl trivial
  | finishRebased ha hs => exact h.continues ha rfl trivial
  | closed re ha => exact h.continues ha rfl trivial

variable (catalog : Option MetadataTuple)

/-- A scanned tuple is the current one or was replaced since. -/
def Holds (old : MetadataTuple) : Prop :=
  ∃ tuple, catalog = some tuple ∧ old.version ≤ tuple.version ∧
    (old.version = tuple.version → old = tuple)

variable {old u : MetadataTuple}

lemma Holds.replaced (h : Holds cat old) (hc : cat = some u) (row : MetadataRow) :
    Holds (some ⟨u.version + 1, row⟩) old := by
  obtain ⟨c, hcu, hle, -⟩ := h
  obtain rfl : c = u := Option.some.inj (hcu.symm.trans hc)
  exact ⟨_, rfl, hle.trans (Nat.le_succ _), fun heq => absurd heq (by simp only; omega)⟩

lemma Holds.afterWrite {old : MetadataTuple} (h : Holds cat old) (write : Option CatalogWrite) :
    Holds (writeCatalog cat write) old := by
  obtain ⟨t, hc, hr⟩ := h
  cases write with
  | none => exact ⟨t, by rw [hc]; rfl, hr⟩
  | some write =>
    rw [hc]
    exact Holds.replaced ⟨t, rfl, hr⟩ rfl write.row

lemma Transition.held (t : Transition c cat out m m' write) {old : MetadataTuple}
    (ho : old ∈ m'.phase.held) : old ∈ m.phase.held ∨ cat = some old ∧ write = none := by
  cases t with
  | stutter => exact .inl ho
  | scanned a b new s u hph hc hb =>
    obtain rfl : u = old := by simpa [held] using ho
    exact .inr ⟨hc, rfl⟩
  | finishScanned b s u row hph hc hro =>
    obtain rfl : u = old := by simpa [held] using ho
    exact .inr ⟨hc, rfl⟩
  | unchanged a next l ha hp hn hr =>
    rcases hn with ⟨b, s, rfl⟩ | rfl <;> simp [held] at ho
  | _ => simp [held, stop] at ho

def rowLocations : Option (Option Location × Option Location) :=
  catalog.map fun tuple => (tuple.row.metadataLocation, tuple.row.previousMetadataLocation)

lemma currentLocation_eq_of_rowLocations {a b : Option MetadataTuple}
    (h : rowLocations a = rowLocations b) : currentLocation a = currentLocation b := by
  cases a <;> cases b <;> simp_all [rowLocations, currentLocation]

/-- A statement that publishes nothing: the locations stay, and so does what the
committer has published before. -/
structure Quiet (i : ι) (catalog : Option MetadataTuple) (m m' : Committer R)
    (write : Option CatalogWrite) : Prop where
  publications : publicationOf i catalog write = []
  locations : rowLocations (writeCatalog catalog write) = rowLocations catalog
  promoted : ∀ id, (id, Resolution.promoted) ∈ m'.ledger.resolved ∨ m'.phase.publishing = some id ↔
    (id, Resolution.promoted) ∈ m.ledger.resolved ∨ m.phase.publishing = some id
  settled : m.phase.settled = true → m'.phase.settled = true

/-- A successful `cas_update`: the row held the base until now. -/
structure Publishes (i : ι) (catalog : Option MetadataTuple) (m m' : Committer R)
    (write : Option CatalogWrite) (attempt : ℕ) (base new : Location) : Prop where
  publications : publicationOf i catalog write =
    [⟨i, attempt, base, some base, some base, some new⟩]
  replaced : currentLocation catalog = some base
  locations : rowLocations (writeCatalog catalog write) = some (some new, some base)
  built : m.phase.base = some base
  current : m.phase.attempt = some attempt
  pending : m.phase.pending = some new
  unsettled : m.phase.settled = false
  phase : ∃ advanced, m'.phase = .promote attempt advanced
  ledger : m'.ledger = m.ledger

section

variable (i : ι)
  (hp : ∀ id, (id, Resolution.promoted) ∈ m'.ledger.resolved ∨ m'.phase.publishing = some id ↔
    (id, Resolution.promoted) ∈ m.ledger.resolved ∨ m.phase.publishing = some id)

include hp

lemma Quiet.of_none (hs : m.phase.settled = true → m'.phase.settled = true) :
    Quiet i cat m m' none :=
  ⟨rfl, by cases cat <;> rfl, hp, hs⟩

lemma Quiet.of_unsettled (hs : m.phase.settled = false) : Quiet i cat m m' none :=
  .of_none i hp (by simp [hs])

end

lemma promoted_of_discarded {a : ℕ} (hr : m.ledger.Resolves a .discarded e)
    (hp : m.phase.publishing = none) (hn : next.publishing = none) (id : ℕ) :
    (id, Resolution.promoted) ∈ e.resolved ∨ next.publishing = some id ↔
      (id, Resolution.promoted) ∈ m.ledger.resolved ∨ m.phase.publishing = some id := by
  simp [hr.resolved, hp, hn]

open Phase

lemma settled_of_attempt {a : ℕ} (ha : m.phase.attempt = some a)
    (hp : m.phase.publishing = none) : m.phase.settled = false := by
  cases hph : m.phase <;> simp_all [attempt, publishing, settled]

lemma publishing_of_attempt (ha : m.phase.attempt = none) : m.phase.publishing = none := by
  cases hp : m.phase <;> simp_all [attempt, publishing]

lemma Holds.current (h : Holds cat old)
    (hc : cat = some u) (hv : old.version = u.version) : old = u := by
  obtain ⟨c, hcu, -, hs⟩ := h
  obtain rfl : c = u := Option.some.inj (hcu.symm.trans hc)
  exact hs hv

/-- Every statement is quiet or publishes. -/
lemma Transition.effect (i : ι) (t : Transition c cat out m m' write) (h : Local c m)
    (hh : ∀ old ∈ m.phase.held, Holds cat old) :
    Quiet i cat m m' write ∨ ∃ k b new, Publishes i cat m m' write k b new := by
  cases t with
  | stutter => exact .inl (.of_none i (fun _ => Iff.rfl) id)
  | exhausted hp hm =>
    exact .inl (.of_none i (fun _ => by simp [stop, hp, publishing]) fun _ => rfl)
  | refused e hp hm => exact .inl (.of_none i (fun _ => by simp [hp, publishing]) fun _ => rfl)
  | begun u l k ledger hp hm hc hl hg hbe =>
    exact .inl (.of_unsettled i (fun _ => by simp [hp, publishing, hbe.resolved]) (by rw [hp]; rfl))
  | abandoned k e ledger ha hpu hr =>
    exact .inl (.of_none i (promoted_of_discarded hr hpu rfl) fun _ => rfl)
  | unchanged k next ledger ha hpu hn hr =>
    refine .inl (.of_unsettled i (promoted_of_discarded hr hpu ?_) (settled_of_attempt ha hpu))
    rcases hn with ⟨b, s, rfl⟩ | rfl <;> rfl
  | materialized k b new s r hp hnew hne =>
    exact .inl (.of_unsettled i (fun _ => by simp [hp, publishing, Ledger.track]) (by rw [hp]; rfl))
  | rebased k ledger ha hpu hr =>
    exact .inl (.of_unsettled i (promoted_of_discarded hr hpu rfl) (settled_of_attempt ha hpu))
  | scanned k b new s u hp hc hb =>
    exact .inl (.of_unsettled i (fun _ => by simp [hp, publishing]) (by rw [hp]; rfl))
  | published k b new s old u hp hc hv =>
    right
    obtain rfl := (hh old (by rw [hp]; rfl)).current hc hv
    have hb : old.row.metadataLocation = some b := by
      have hco := h.consistent
      rwa [hp] at hco
    have hre : currentLocation cat = some b := by
      rw [hc]
      exact hb
    refine ⟨k, b, new, ?_, hre, ?_, by rw [hp]; rfl, by rw [hp]; rfl,
      by rw [hp]; rfl, by rw [hp]; rfl, ⟨_, rfl⟩, rfl⟩
    · simp only [publicationOf, hre, casRow]
    · rw [hc]
      rfl
  | promoted k a ledger hp hr =>
    refine .inl (.of_none i (fun id => ?_) fun _ => rfl)
    simp [hr.resolved, hp, publishing, eq_comm]
  | finishScanned b s u row hp hc hro =>
    exact .inl (.of_unsettled i (fun _ => by simp [hp, publishing]) (by rw [hp]; rfl))
  | finishRebased ha hs =>
    refine .inl (.of_unsettled i (fun _ => ?_) hs)
    rw [publishing_of_attempt ha]
    exact Iff.rfl
  | finishWritten old u row hp hc hv =>
    obtain rfl := (hh old (by rw [hp]; rfl)).current hc hv
    have hco := h.consistent
    rw [hp] at hco
    refine .inl ⟨rfl, ?_, fun _ => by simp [hp, publishing], fun _ => rfl⟩
    rw [hc]
    simp only [rowLocations, writeCatalog, Option.map_some, hco.1, hco.2]
  | closed re ha =>
    refine .inl (.of_none i (fun _ => ?_) fun _ => rfl)
    rw [publishing_of_attempt ha]
    exact Iff.rfl

end Transitions

/-! ## The invariant of the system -/

/-- Every publication replaced what the one before it left behind, was built on
exactly that location, and records it as the previous one. -/
def Chained : Option Location → List (Publication ι) → Option Location → Prop
  | first, [], last => first = last
  | first, p :: rest, last =>
    p.replaced = first ∧ p.replaced = some p.base ∧ p.previous = some p.base ∧
      Chained p.location rest last

lemma Chained.snoc {first l : Option Location} {ps : List (Publication ι)} (h : Chained first ps l)
    {p : Publication ι} (hr : p.replaced = l) (hb : p.replaced = some p.base)
    (hp : p.previous = some p.base) : Chained first (ps ++ [p]) p.location := by
  induction ps generalizing first with
  | nil =>
    obtain rfl : first = l := h
    exact ⟨hr, hb, hp, rfl⟩
  | cons q r ih =>
    obtain ⟨hq, hqb, hqp, hre⟩ := h
    exact ⟨hq, hqb, hqp, ih hre⟩

def Published (s : System ι R) (i : ι) (attempt : ℕ) : Prop :=
  ∃ p ∈ s.publications, p.owner = i ∧ p.attempt = attempt

structure Inv (coordinators : ι → Coordinator R) (first : Option Location) (s : System ι R) :
    Prop where
  committer : ∀ i, Local (coordinators i) (s.committers i)
  held : ∀ i, ∀ old ∈ (s.committers i).phase.held, Holds s.catalog old
  chain : Chained first s.publications (currentLocation s.catalog)
  guard : ∀ p ∈ s.publications, ∀ g ∈ (coordinators p.owner).truncateGuard, p.replaced = some g
  published : ∀ i id, Published s i id ↔
    (id, Resolution.promoted) ∈ (s.committers i).ledger.resolved ∨
      (s.committers i).phase.publishing = some id
  settled : ∀ p ∈ s.publications, (s.committers p.owner).phase.settled = true
  once : (s.publications.map (·.owner)).Nodup

variable {cos : ι → Coordinator R}

lemma inv_initial {s : System ι R} (h : Initial s) : Inv cos (currentLocation s.catalog) s where
  committer i := by
    refine ⟨⟨?_, ?_, ?_, ?_⟩, ?_, ?_, ?_, ?_⟩
    · simp [h.active i, h.phase i, attempt]
    · simp [h.begun i, h.resolved i, h.phase i, attempt]
    · simp [h.begun i]
    · simp [h.begun i]
    · simp [h.retries i]
    · simp [h.begun i]
    · simp [h.phase i, base]
    · rw [h.phase i]
      trivial
  held i old ho := by simp [h.phase i, held] at ho
  chain := by
    rw [h.publications]
    rfl
  guard := by simp [h.publications]
  published i id := by simp [Published, h.publications, h.resolved i, h.phase i, publishing]
  settled := by simp [h.publications]
  once := by simp [h.publications]

section Preservation

variable [DecidableEq ι] {cos : ι → Coordinator R} {first : Option Location} {s : System ι R}
  {i : ι} {out : Outcome R} {m' : Committer R} {write : Option CatalogWrite}

/-- The system after committer `i` moved to `m'` with the given tuple update. -/
def System.moved (s : System ι R) (i : ι) (outcome : Outcome R) (m' : Committer R)
    (write : Option CatalogWrite) : System ι R where
  catalog := writeCatalog s.catalog write
  committers := Function.update s.committers i m'
  written := outcome.locations ++ s.written
  publications := s.publications ++ publicationOf i s.catalog write

lemma moved_self : (s.moved i out m' write).committers i = m' := by
  simp [System.moved]

lemma moved_ne {j : ι} (h : j ≠ i) : (s.moved i out m' write).committers j = s.committers j := by
  simp [System.moved, h]

section Moved

variable (h : Inv cos first s) (t : Transition (cos i) s.catalog out (s.committers i) m' write)

include h t

lemma Inv.moved_committer (j : ι) : Local (cos j) ((s.moved i out m' write).committers j) := by
  by_cases hj : j = i
  · subst j
    rw [moved_self]
    exact (h.committer i).transition t
  · rw [moved_ne hj]
    exact h.committer j

lemma Inv.moved_held (j : ι) (old : MetadataTuple)
    (ho : old ∈ ((s.moved i out m' write).committers j).phase.held) :
    Holds (writeCatalog s.catalog write) old := by
  by_cases hj : j = i
  · subst j
    rw [moved_self] at ho
    rcases t.held ho with hb | ⟨hc, rfl⟩
    · exact (h.held i old hb).afterWrite write
    · rw [hc]
      exact ⟨old, rfl, le_rfl, fun _ => rfl⟩
  · rw [moved_ne hj] at ho
    exact (h.held j old ho).afterWrite write

lemma Inv.moved_quiet (hq : Quiet i s.catalog (s.committers i) m' write) :
    Inv cos first (s.moved i out m' write) := by
  have hpu : (s.moved i out m' write).publications = s.publications := by
    simp [System.moved, hq.publications]
  refine ⟨h.moved_committer t, h.moved_held t, ?_, ?_, ?_, ?_, ?_⟩
  · rw [hpu]
    exact currentLocation_eq_of_rowLocations hq.locations ▸ h.chain
  · rw [hpu]
    exact h.guard
  · intro j id
    unfold Published
    rw [hpu]
    by_cases hj : j = i
    · subst j
      rw [moved_self, hq.promoted id]
      exact h.published i id
    · rw [moved_ne hj]
      exact h.published j id
  · rw [hpu]
    intro p hp
    by_cases hj : p.owner = i
    · rw [hj, moved_self]
      exact hq.settled (hj ▸ h.settled p hp)
    · rw [moved_ne hj]
      exact h.settled p hp
  · rw [hpu]
    exact h.once

lemma Inv.moved_publishes {k : ℕ} {b new : Location}
    (hp : Publishes i s.catalog (s.committers i) m' write k b new) :
    Inv cos first (s.moved i out m' write) := by
  have hpu : (s.moved i out m' write).publications =
      s.publications ++ [⟨i, k, b, some b, some b, some new⟩] := by
    simp [System.moved, hp.publications]
  have hl : currentLocation (writeCatalog s.catalog write) = some new := by
    obtain ⟨u, ht, hr⟩ := Option.map_eq_some_iff.mp hp.locations
    rw [ht]
    exact congrArg Prod.fst hr
  -- a committer in the middle of an attempt has published nothing yet
  have ho : ∀ p ∈ s.publications, p.owner ≠ i := by
    intro p hm how
    have hs := h.settled p hm
    rw [how, hp.unsettled] at hs
    cases hs
  have hpub : (s.committers i).phase.publishing = none := by
    have hu := hp.unsettled
    cases hph : (s.committers i).phase <;>
      simp_all [Phase.settled, Phase.publishing]
  obtain ⟨a, hph⟩ := hp.phase
  refine ⟨h.moved_committer t, h.moved_held t, ?_, ?_, ?_, ?_, ?_⟩
  · rw [hpu]
    change Chained first _ (currentLocation (writeCatalog s.catalog write))
    rw [hl]
    exact h.chain.snoc hp.replaced.symm rfl rfl
  · rw [hpu]
    intro p hm g hg
    rcases mem_append.mp hm with hm | hm
    · exact h.guard p hm g hg
    · obtain rfl := mem_singleton.mp hm
      rw [(h.committer i).guard b hp.built g hg]
  · intro j id
    unfold Published
    rw [hpu]
    by_cases hj : j = i
    · subst j
      have hb := h.published i id
      rw [hpub] at hb
      rw [moved_self, hp.ledger, hph]
      simp only [publishing, Option.some.injEq]
      simp only [reduceCtorEq, or_false] at hb
      rw [← hb]
      simp [Published, or_and_right, exists_or]
    · rw [moved_ne hj, ← h.published j id]
      simp [Published, or_and_right, exists_or, Ne.symm hj]
  · rw [hpu]
    intro p hm
    rcases mem_append.mp hm with hm | hm
    · rw [moved_ne (ho p hm)]
      exact h.settled p hm
    · obtain rfl := mem_singleton.mp hm
      rw [moved_self, hph]
      rfl
  · rw [hpu, map_append]
    refine List.Nodup.append h.once (nodup_singleton _) ?_
    intro o hb hn
    obtain ⟨p, hm, rfl⟩ := mem_map.mp hb
    exact ho p hm (by simpa using hn)

end Moved

lemma Inv.step {s' : System ι R} (h : Inv cos first s) (next : Step cos s s') :
    Inv cos first s' := by
  cases next with
  | commit i out f =>
    have t : Transition (cos i) s.catalog out (s.committers i) _ _ :=
      advance_transition out (h.committer i).ledger
    rcases t.effect i (h.committer i) (h.held i) with hq | ⟨a, base, new, hp⟩
    · exact h.moved_quiet t hq
    · exact h.moved_publishes t hp
  | reschedule u d c =>
    refine ⟨h.committer, fun i old ho => (h.held i old ho).replaced c _, ?_, h.guard,
      h.published, h.settled, h.once⟩
    have hc := h.chain
    rw [c] at hc
    exact hc

lemma Inv.reachable {start : System ι R} (hs : Initial start) (h : Reachable cos start s) :
    Inv cos (currentLocation start.catalog) s := by
  induction h with
  | refl => exact inv_initial hs
  | step r next ih => exact ih.step next

/-! ## Locations are never reused -/

def chainLocations (first : Option Location) (s : System ι R) : List (Option Location) :=
  first :: s.publications.map (·.location)

/-- A location waiting for its `cas_update` belongs to one committer and is not
in the chain. -/
structure Unused (first : Option Location) (s : System ι R) : Prop where
  written : ∀ location, some location ∈ chainLocations first s → location ∈ s.written
  pendingWritten : ∀ i, ∀ location ∈ (s.committers i).phase.pending, location ∈ s.written
  pendingNew : ∀ i, ∀ location ∈ (s.committers i).phase.pending,
    some location ∉ chainLocations first s
  apart : ∀ i j location, location ∈ (s.committers i).phase.pending →
    location ∈ (s.committers j).phase.pending → i = j
  distinct : (chainLocations first s).Nodup

attribute [local simp] pending

variable {l : Location}

lemma Transition.pending {c : Coordinator R} {cat : Option MetadataTuple} {m : Committer R}
    (t : Transition c cat out m m' write) (hp : l ∈ m'.phase.pending) :
    l ∈ m.phase.pending ∨ l ∈ out.locations ∧ m.phase.materializing ≠ some l := by
  cases t with
  | stutter => exact .inl hp
  | materialized a b new s r hph hnew hne =>
    obtain rfl : new = l := by simpa using hp
    refine .inr ⟨hnew, ?_⟩
    rw [hph]
    simpa [materializing] using Ne.symm hne
  | scanned a b new s u hph hc hb =>
    rw [hph]
    exact .inl hp
  | unchanged a next ledger ha hpu hn hr =>
    rcases hn with ⟨b, s, rfl⟩ | rfl <;> simp at hp
  | _ => simp [stop] at hp

lemma pending_moved {j : ι} (t : Transition (cos i) s.catalog out (s.committers i) m' write)
    (f : FreshOutcome s i out) (hp : l ∈ ((s.moved i out m' write).committers j).phase.pending) :
    l ∈ (s.committers j).phase.pending ∨ j = i ∧ l ∈ out.locations ∧ l ∉ s.written := by
  by_cases hj : j = i
  · subst j
    rw [moved_self] at hp
    rcases t.pending hp with hb | ⟨hn, hba⟩
    · exact .inl hb
    · exact .inr ⟨rfl, hn, (f l hn).resolve_right hba⟩
  · rw [moved_ne hj] at hp
    exact .inl hp

/-- Everything but the chain itself: the chain may have grown by a location
that was pending at `i` and is pending nowhere now. -/
lemma Unused.moved (h : Unused first s)
    (t : Transition (cos i) s.catalog out (s.committers i) m' write) (f : FreshOutcome s i out)
    (hc : ∀ l, some l ∈ chainLocations first (s.moved i out m' write) →
      some l ∈ chainLocations first s ∨ l ∈ (s.committers i).phase.pending ∧
      m'.phase.pending = none) (hd : (chainLocations first (s.moved i out m' write)).Nodup) :
    Unused first (s.moved i out m' write) where
  written l hm := by
    refine mem_append_right _ ?_
    rcases hc l hm with hb | ⟨hp, -⟩
    · exact h.written l hb
    · exact h.pendingWritten i l hp
  pendingWritten j l hp := by
    rcases pending_moved t f hp with hb | ⟨-, hnew, -⟩
    · exact mem_append_right _ (h.pendingWritten j l hb)
    · exact mem_append_left _ hnew
  pendingNew j l hp hm := by
    rcases hc l hm with hb | ⟨ho, hn⟩
    · rcases pending_moved t f hp with hol | ⟨-, -, hu⟩
      · exact h.pendingNew j l hol hb
      · exact hu (h.written l hb)
    · by_cases hj : j = i
      · subst j
        rw [moved_self, hn] at hp
        cases hp
      · rw [moved_ne hj] at hp
        exact hj (h.apart j i l hp ho)
  apart j k l hj hk := by
    rcases pending_moved t f hj with hj | ⟨rfl, -, hu⟩
    · rcases pending_moved t f hk with hk | ⟨-, -, hu⟩
      · exact h.apart j k l hj hk
      · exact absurd (h.pendingWritten j l hj) hu
    · rcases pending_moved t f hk with hk | ⟨rfl, -, -⟩
      · exact absurd (h.pendingWritten k l hk) hu
      · rfl
  distinct := hd

lemma Unused.step {s' : System ι R} (h : Unused first s) (hi : Inv cos first s)
    (next : Step cos s s') : Unused first s' := by
  cases next with
  | reschedule u d c => exact ⟨h.written, h.pendingWritten, h.pendingNew, h.apart, h.distinct⟩
  | commit i out f =>
    have t : Transition (cos i) s.catalog out (s.committers i) _ _ :=
      advance_transition out (hi.committer i).ledger
    rcases t.effect i (hi.committer i) (hi.held i) with hq | ⟨k, base, new, hp⟩
    · have hs : chainLocations first (s.commitStep cos i out) = chainLocations first s := by
        simp [chainLocations, System.commitStep, hq.publications]
      refine h.moved t f (fun l hm => .inl ?_) ?_
      · rwa [← hs]
      · change (chainLocations first (s.commitStep cos i out)).Nodup
        rw [hs]
        exact h.distinct
    · have hg : chainLocations first (s.commitStep cos i out) =
          chainLocations first s ++ [some new] := by
        simp [chainLocations, System.commitStep, hp.publications]
      obtain ⟨a, hph⟩ := hp.phase
      refine h.moved t f (fun l hm => ?_) ?_
      · change some l ∈ chainLocations first (s.commitStep cos i out) at hm
        rw [hg, mem_append, mem_singleton] at hm
        refine hm.imp id fun hn => ?_
        cases hn
        exact ⟨hp.pending, by rw [hph]; rfl⟩
      · change (chainLocations first (s.commitStep cos i out)).Nodup
        rw [hg]
        refine List.Nodup.append h.distinct (nodup_singleton _) ?_
        intro l hb hn
        obtain rfl := mem_singleton.mp hn
        exact h.pendingNew i new hp.pending hb

lemma Unused.reachable {start : System ι R} (hs : Initial start)
    (h : Reachable cos start s) : Unused (currentLocation start.catalog) s := by
  induction h with
  | refl =>
    refine ⟨fun l hm => ?_, ?_, ?_, ?_, ?_⟩
    · refine hs.written l ?_
      simpa [chainLocations, hs.publications, eq_comm] using hm
    · simp [hs.phase]
    · simp [hs.phase]
    · simp [hs.phase]
    · simp [chainLocations, hs.publications]
  | step r next ih => exact ih.step (Inv.reachable hs r) next

end Preservation

/-! ## Safety of every interleaving -/

/-- What holds in every state the committers can reach together. -/
structure CommitSafety [DecidableEq ι] (coordinators : ι → Coordinator R) (start s : System ι R) :
    Prop where
  /-- The successful updates form one chain from the first location to the
  current one, each built on exactly the location it replaced. -/
  chain : Chained (currentLocation start.catalog) s.publications (currentLocation s.catalog)
  /-- No location occurs twice in that chain. -/
  distinct : (chainLocations (currentLocation start.catalog) s).Nodup
  guard : ∀ p ∈ s.publications, ∀ g ∈ (coordinators p.owner).truncateGuard, p.replaced = some g
  /-- Apart from a publication the location columns never change. -/
  locations : ∀ s', Step coordinators s s' →
    (s'.publications = s.publications ∧ rowLocations s'.catalog = rowLocations s.catalog) ∨
      ∃ p, s'.publications = s.publications ++ [p] ∧
        rowLocations s'.catalog = some (p.location, p.previous)
  promoted : ∀ i id, (id, Resolution.promoted) ∈ (s.committers i).ledger.resolved →
    Published s i id
  /-- Between its update and its promotion an attempt is neither. -/
  resolved : ∀ i, ∀ id ∈ (s.committers i).ledger.begun,
    (s.committers i).phase.attempt = some id ∨
      Published s i id ∧ (id, Resolution.promoted) ∈ (s.committers i).ledger.resolved ∨
      ¬ Published s i id ∧ (id, Resolution.discarded) ∈ (s.committers i).ledger.resolved
  /-- A returned call has resolved every attempt it began. -/
  returned : ∀ i result, (s.committers i).phase = .done result →
    (s.committers i).phase.attempt = none
  resolvedOnce : ∀ i, ((s.committers i).ledger.resolved.map Prod.fst).Nodup
  once : (s.publications.map (·.owner)).Nodup
  attempts : ∀ i, (s.committers i).ledger.begun.length ≤ (coordinators i).maxRetries + 1
  exhausted : ∀ i outcome, (s.committers i).phase = .loop →
    (s.committers i).retries = (coordinators i).maxRetries + 1 →
    ((s.committers i).advance (coordinators i) s.catalog outcome).1.phase =
      .done (.error (.metadataCommitConflict (coordinators i).relid (coordinators i).maxRetries))

section Safety

variable [DecidableEq ι] {cos : ι → Coordinator R} {s : System ι R} {first : Option Location}

lemma Inv.locations (h : Inv cos first s) {s' : System ι R} (next : Step cos s s') :
    (s'.publications = s.publications ∧ rowLocations s'.catalog = rowLocations s.catalog) ∨
      ∃ p, s'.publications = s.publications ++ [p] ∧
        rowLocations s'.catalog = some (p.location, p.previous) := by
  cases next with
  | reschedule u d c =>
    refine .inl ⟨rfl, ?_⟩
    rw [c]
    rfl
  | commit i o f =>
    have t : Transition (cos i) s.catalog o (s.committers i) _ _ :=
      advance_transition o (h.committer i).ledger
    rcases t.effect i (h.committer i) (h.held i) with hq | ⟨a, base, new, hp⟩
    · exact .inl ⟨by simp [System.commitStep, hq.publications], hq.locations⟩
    · refine .inr ⟨⟨i, a, base, some base, some base, some new⟩, ?_, hp.locations⟩
      simp only [System.commitStep, hp.publications]

lemma Ledger.Valid.resolved_nodup {l : Ledger R} {c : Option ℕ} (h : l.Valid c) :
    (l.resolved.map Prod.fst).Nodup := by
  have hi := h.increasing
  rw [h.begun] at hi
  exact (pairwise_append.mp hi).1.imp fun hlt => Nat.ne_of_lt hlt

lemma resolution_unique {l : Ledger R} {id : ℕ} {a b : Resolution}
    (h : (l.resolved.map Prod.fst).Nodup) (ha : (id, a) ∈ l.resolved)
    (hb : (id, b) ∈ l.resolved) : a = b := by
  have hp := inj_on_of_nodup_map h ha hb rfl
  exact congrArg Prod.snd hp

lemma publishing_attempt {p : Phase} {id : ℕ} (h : p.publishing = some id) :
    p.attempt = some id := by
  cases p <;> simp_all [publishing, attempt]

omit [DecidableEq ι] in
lemma Inv.resolved (h : Inv cos first s) (i : ι) (id : ℕ)
    (hb : id ∈ (s.committers i).ledger.begun) :
    (s.committers i).phase.attempt = some id ∨
      Published s i id ∧ (id, Resolution.promoted) ∈ (s.committers i).ledger.resolved ∨
      ¬ Published s i id ∧ (id, Resolution.discarded) ∈ (s.committers i).ledger.resolved := by
  have hl := (h.committer i).ledger
  rw [hl.begun, mem_append] at hb
  rcases hb with hr | hac
  · obtain ⟨⟨id', r⟩, hm, rfl⟩ := mem_map.mp hr
    cases r with
    | promoted => exact .inr (.inl ⟨(h.published i id').mpr (.inl hm), hm⟩)
    | discarded =>
      by_cases ha : (s.committers i).phase.attempt = some id'
      · exact .inl ha
      · refine .inr (.inr ⟨fun hpu => ?_, hm⟩)
        rcases (h.published i id').mp hpu with hpromoted | hp
        · cases resolution_unique hl.resolved_nodup hpromoted hm
        · exact ha (publishing_attempt hp)
  · exact .inl (by simpa using hac)

theorem reachable_commitSafety (coordinators : ι → Coordinator R) (start s : System ι R)
    (hstart : Initial start) (hreach : Reachable coordinators start s) :
    CommitSafety coordinators start s := by
  have hinv := Inv.reachable hstart hreach
  refine ⟨hinv.chain, (Unused.reachable hstart hreach).distinct, hinv.guard,
    fun s' next => hinv.locations next, fun i id hm => (hinv.published i id).mpr (.inl hm),
    hinv.resolved, ?_, fun i => (hinv.committer i).ledger.resolved_nodup, hinv.once, ?_, ?_⟩
  · intro i r hp
    rw [hp]
    rfl
  · intro i
    exact (hinv.committer i).count.trans (hinv.committer i).retries
  · intro i outcome hp hr
    simp only [Committer.advance, hp, Committer.head, hr, Nat.lt_succ_self, if_true]
    rfl

end Safety

/-! ## A race -/

/-- Committers acting in a given order, each with the answer it gets. -/
def System.replay [DecidableEq ι] (coordinators : ι → Coordinator R) (s : System ι R) :
    List (ι × Outcome R) → System ι R
  | [] => s
  | (i, outcome) :: rest => (s.commitStep coordinators i outcome).replay coordinators rest

def FreshReplay [DecidableEq ι] (coordinators : ι → Coordinator R) (s : System ι R) :
    List (ι × Outcome R) → Prop
  | [] => True
  | (i, outcome) :: rest =>
    FreshOutcome s i outcome ∧ FreshReplay coordinators (s.commitStep coordinators i outcome) rest

lemma reachable_replay [DecidableEq ι] {start s : System ι R}
    (h : Reachable cos start s) (script : List (ι × Outcome R)) (f : FreshReplay cos s script) :
    Reachable cos start (s.replay cos script) := by
  induction script generalizing s with
  | nil => exact h
  | cons next r ih => exact ih (h.step (.commit next.1 next.2 f.1)) f.2

/-- Both committers read `m0`; the first publishes, the second is rebased. -/
def raceScript : List (Bool × Outcome Unit) :=
  [(false, .ok), (true, .ok), (false, .materialized "m1" [()]), (true, .materialized "m2" [()]),
    (false, .ok), (true, .ok), (false, .ok), (true, .ok), (false, .ok), (false, .ok),
    (true, .ok), (true, .materialized "m3" [()]), (true, .ok), (true, .ok), (true, .ok),
    (true, .ok)]

def raceCoordinators : Bool → Coordinator Unit
  | false => ⟨7, 3, some "m0", none, .scheduleNoLaterThan 10, 1, fun _ => none⟩
  | true => ⟨7, 3, none, none, .scheduleNoLaterThan 5, 1, fun _ => none⟩

def raceStart : System Bool Unit where
  catalog := some ⟨0, ⟨some "m0", none, none⟩⟩
  committers := fun _ => ⟨.loop, 0, ⟨⟨none, [], [], 1⟩, [], []⟩⟩
  written := ["m0"]
  publications := []

lemma raceStart_initial : Initial raceStart :=
  ⟨fun _ => rfl, fun _ => rfl, fun _ => rfl, fun _ => rfl, fun _ => rfl, by decide, rfl⟩

lemma raceScript_fresh : FreshReplay raceCoordinators raceStart raceScript := by
  simp only [raceScript, FreshReplay, and_true]
  refine ⟨?_, ?_, ?_, ?_, ?_, ?_, ?_, ?_, ?_, ?_, ?_, ?_, ?_, ?_, ?_, ?_⟩ <;> decide

theorem race_commitSafety :
    (raceStart.replay raceCoordinators raceScript).publications.map (·.location) =
        [some "m1", some "m3"] ∧
      CommitSafety raceCoordinators raceStart (raceStart.replay raceCoordinators raceScript) :=
  ⟨by decide, reachable_commitSafety raceCoordinators raceStart _ raceStart_initial
    (reachable_replay .refl raceScript raceScript_fresh)⟩

end LagoDB.MetadataCommit
