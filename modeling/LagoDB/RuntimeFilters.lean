import LagoDB.FilterLowering

/-!
# Filters of a running scan

A scan opens with fixed filters, which it offers to the provider once, and with
evolving filters, whose producers publish new bounds while rows flow. Before each
batch the scan asks its trackers whether a producer has moved on and if so takes
new snapshots. Producers run beside the scan: they may publish between the poll
of a tracker and the snapshot that follows it.
-/
namespace LagoDB.DataFusionFilters

open ExceptLoop Iceberg RuntimePredicates List LogicalPredicateAdapter PhysicalPredicateAdapter

/-! ## The provider -/

inductive PredicateSupport where
  | conservative
  | exact
  deriving DecidableEq

inductive DataFusionError where
  | plan (message : String)
  | external (message : String)
  | panicked (message : String)
  deriving DecidableEq

/-- A predicate the provider has accepted and the rows it lets through. -/
structure NegotiatedTableScanPredicate where
  support : PredicateSupport
  selects : SourceRow → Bool

structure BoundTableScan where
  negotiatePredicate :
    RuntimePruningPredicate → Except DataFusionError (Option NegotiatedTableScanPredicate)

/-- What a provider's answer promises about the rows of its table. -/
structure ProviderContract (bound : BoundTableScan)
    (order : SqlValue → SqlValue → Option Ordering) (rows : SourceRow → Prop) : Prop where
  covers : ∀ predicate negotiated, bound.negotiatePredicate predicate = .ok (some negotiated) →
    ∀ source, rows source → Selected order predicate source → negotiated.selects source = true
  exact : ∀ predicate negotiated, bound.negotiatePredicate predicate = .ok (some negotiated) →
    negotiated.support = .exact →
      ∀ source, rows source → negotiated.selects source = true → Selected order predicate source

/-! ## Evolving filters -/

structure Publication where
  generation : ℕ
  snapshot : Except DataFusionError (Option (Expr ℕ))

abbrev Producers := ℕ → Publication

/-- Producers count their publications. -/
def Producers.Later (before after : Producers) : Prop :=
  ∀ id, (before id).generation ≤ (after id).generation ∧
    ((before id).generation = (after id).generation → (after id).snapshot = (before id).snapshot)

structure EvolvingFilter where
  id : ℕ
  expression : Expr ℕ
  seen : ℕ

namespace EvolvingFilter

variable (filter : EvolvingFilter)

def changed (polled : Producers) : Bool :=
  filter.seen != (polled filter.id).generation

def poll (polled : Producers) : EvolvingFilter :=
  { filter with seen := (polled filter.id).generation }

def snapshot (filter : EvolvingFilter) (producers : Producers) : Except DataFusionError (Expr ℕ) :=
  (producers filter.id).snapshot.map fun current => current.getD filter.expression

end EvolvingFilter

inductive RuntimePredicateUpdate where
  | replace (predicate : RuntimePruningPredicate)
  | clear

structure EncodedPredicateSlot where
  update : RuntimePredicateUpdate
  generation : ℕ

structure ActiveRuntimeFilters where
  fixedBatchResidual : Option (Expr ℕ)
  evolving : List EvolvingFilter
  currentEvolving : Option (Expr ℕ)
  batchPredicate : Option (Expr ℕ)
  providerFixed : Option NegotiatedTableScanPredicate
  providerEvolving : Option EncodedPredicateSlot
  adapter : PredicateAdapter ℕ
  providerGeneration : ℕ

open ActiveRuntimeFilters

def isAlwaysTrue : RuntimePruningPredicate → Bool
  | .alwaysTrue => true
  | _ => false

namespace ActiveRuntimeFilters

open PhysicalPredicateAdapter (plan)

/-- The provider's part of the snapshots; a trivial one is not worth a slot. -/
def loweredUpdate (adapter : PredicateAdapter ℕ) (e : Expr ℕ) : RuntimePredicateUpdate :=
  match (plan adapter e).providerPredicate with
  | some predicate => if isAlwaysTrue predicate then .clear else .replace predicate
  | none => .clear

def rebuildBatchPredicate (active : ActiveRuntimeFilters) : ActiveRuntimeFilters :=
  { active with
    batchPredicate := conjunctionOpt
      (active.fixedBatchResidual.toList ++ active.currentEvolving.toList) }

/-- Every tracker is polled, then every filter is snapshotted. A failed snapshot
ends the scan. -/
def refreshEvolving (active : ActiveRuntimeFilters) (polled snapped : Producers) (force : Bool) :
    Except DataFusionError (Bool × ActiveRuntimeFilters) :=
  if active.evolving.isEmpty then .ok (false, active)
  else
    let changed := active.evolving.foldl
      (fun changed filter => filter.changed polled || changed) force
    let evolving := active.evolving.map (·.poll polled)
    if !changed then .ok (false, { active with evolving })
    else do
      let snapshots ← evolving.mapM (·.snapshot snapped)
      let refreshed := { active with evolving, currentEvolving := conjunctionOpt snapshots }
      match conjunctionOpt snapshots, active.providerEvolving with
      | none, _ => .ok (true, refreshed)
      | some _, none => .error (.panicked "evolving filters own a provider predicate slot")
      | some e, some _ => .ok (true, { refreshed with
          providerGeneration := active.providerGeneration + 1
          providerEvolving :=
            some ⟨loweredUpdate active.adapter e, active.providerGeneration + 1⟩ })

def refresh (active : ActiveRuntimeFilters) (polled snapped : Producers) :
    Except DataFusionError ActiveRuntimeFilters := do
  let refreshed ← active.refreshEvolving polled snapped false
  pure (if refreshed.1 then refreshed.2.rebuildBatchPredicate else refreshed.2)

def fixedResidual (fixed exactResidual : Option (Expr ℕ)) : Option PredicateSupport →
    Option (Expr ℕ)
  | some .exact => exactResidual
  | some .conservative | none => fixed

/-- The provider's answer to the part of the fixed filters it is offered. -/
def negotiateFixed (bound : BoundTableScan) (offered : Option RuntimePruningPredicate) :
    Except DataFusionError (Option NegotiatedTableScanPredicate) :=
  match offered with
  | none => .ok none
  | some predicate =>
    if isAlwaysTrue predicate then .ok none else bound.negotiatePredicate predicate

def new (fixed : List (Expr ℕ)) (evolving : List EvolvingFilter) (adapter : PredicateAdapter ℕ)
    (bound : BoundTableScan) (polled snapped : Producers) :
    Except DataFusionError ActiveRuntimeFilters := do
  let whole := conjunctionOpt fixed
  let lowered := whole.map (plan adapter)
  let providerFixed ← negotiateFixed bound (lowered.bind (·.providerPredicate))
  let opened : ActiveRuntimeFilters := {
    fixedBatchResidual := fixedResidual whole (lowered.bind (·.exactResidual))
      (providerFixed.map (·.support))
    evolving
    currentEvolving := none
    batchPredicate := none
    providerFixed
    providerEvolving := if evolving.isEmpty then none else some ⟨.clear, 0⟩
    adapter
    providerGeneration := 0 }
  let refreshed ← opened.refreshEvolving polled snapped true
  pure refreshed.2.rebuildBatchPredicate

end ActiveRuntimeFilters

/-! ## Static filters -/

inductive TableProviderFilterPushDown where
  | unsupported
  | inexact
  | exact
  deriving DecidableEq

namespace StaticFilterSet

def support (filter : Expr String) (adapter : PredicateAdapter String) (bound : BoundTableScan) :
    Except DataFusionError TableProviderFilterPushDown :=
  match lower adapter filter with
  | none => .ok .unsupported
  | some plan => do
    match ← bound.negotiatePredicate plan.predicate with
    | none => pure .unsupported
    | some planned => pure (if planned.support = .exact ∧ plan.complete then .exact else .inexact)

end StaticFilterSet

/-! ## Fixed filters -/

section Fixed

open ActiveRuntimeFilters PhysicalPredicateAdapter Option

variable {ks : Kernels ℕ} {b : BoundTableScan} {rows : SourceRow → Prop} {d : PredicateAdapter ℕ}

def PassesProvider (negotiated : Option NegotiatedTableScanPredicate) (source : SourceRow) : Prop :=
  ∀ predicate, negotiated = some predicate → predicate.selects source = true

def PassesBatch (kernels : Kernels ℕ) (predicate : Option (Expr ℕ)) (row : ℕ → Option SqlValue) :
    Prop :=
  ∀ e, predicate = some e → e.IsTrue kernels row

lemma passesBatch_conjunctionOpt (es : List (Expr ℕ)) (row : ℕ → Option SqlValue) :
    PassesBatch ks (conjunctionOpt es) row ↔ ∀ e ∈ es, e.IsTrue ks row :=
  conjunctionOpt_isTrue es

variable {g : Option NegotiatedTableScanPredicate}

lemma negotiateFixed_cases {o : Option RuntimePruningPredicate} (h : negotiateFixed b o = .ok g) :
    g = none ∨ ∃ p a, o = some p ∧ g = some a ∧ b.negotiatePredicate p = .ok (some a) := by
  unfold negotiateFixed at h
  split at h
  next => exact .inl (Except.ok.inj h).symm
  next p =>
    split_ifs at h
    · exact .inl (Except.ok.inj h).symm
    · cases g with
      | none => exact .inl rfl
      | some a => exact .inr ⟨p, a, rfl, rfl, h⟩

/-- Whatever the provider answers, its predicate and the residual together are
the fixed filters. -/
lemma fixed_passes (laws : KernelLaws ks) (c : ProviderContract b ks.order rows)
    {row : ℕ → Option SqlValue} {s : SourceRow} (hso : rows s)
    (rs : Reads d row s) (w : Option (Expr ℕ))
    (h : negotiateFixed b ((w.map (plan d)).bind (·.providerPredicate)) = .ok g) :
    PassesProvider g s ∧ PassesBatch ks (fixedResidual w
          ((w.map (plan d)).bind (·.exactResidual)) (g.map (·.support))) row ↔
      PassesBatch ks w row := by
  rcases negotiateFixed_cases h with rfl | ⟨predicate, a, ho, rfl, hn⟩
  · exact ⟨And.right, fun hw => ⟨nofun, hw⟩⟩
  · cases w with
    | none => cases ho
    | some e =>
      have hpl := plan_passes laws rs e
      have hp : (plan d e).providerPredicate = some predicate := ho
      have hc : e.IsTrue ks row → a.selects s = true := fun ht =>
        c.covers predicate a hn s hso ((hpl.mpr ht).provider hp)
      cases hs : a.support with
      | conservative =>
        simp only [PassesProvider, PassesBatch, map_some, hs, fixedResidual, some.injEq, forall_eq']
        exact ⟨And.right, fun ht => ⟨hc ht, ht⟩⟩
      | exact =>
        simp only [PassesProvider, PassesBatch, map_some, hs, fixedResidual,
          some.injEq, forall_eq', bind_some]
        rw [← hpl]
        constructor
        · rintro ⟨hse, hr⟩
          refine ⟨fun o hot => ?_, hr⟩
          obtain rfl : predicate = o := some.inj (hp.symm.trans hot)
          exact c.exact predicate a hn hs s hso hse
        · intro hpa
          exact ⟨hc (hpl.mp hpa), hpa.2⟩

end Fixed

/-! ## Refreshing -/

section Evolving

open ActiveRuntimeFilters

variable {active act next : ActiveRuntimeFilters} {polled snapped n : Producers}
  {force moved : Bool}

lemma snapshot_poll (f : EvolvingFilter) (p m : Producers) :
    (f.poll p).snapshot m = f.snapshot m := rfl

variable (v : List EvolvingFilter)

lemma mapM_poll (p m : Producers) :
    (v.map (·.poll p)).mapM (·.snapshot m) = v.mapM (·.snapshot m) := by
  induction v with
  | nil => rfl
  | cons f r ih => rw [map_cons, mapM_cons, mapM_cons, ih, snapshot_poll]

lemma changed_eq_false (p : Producers) (force : Bool)
    (h : v.foldl (fun b f => f.changed p || b) force = false) :
    force = false ∧ ∀ f ∈ v, f.seen = (p f.id).generation := by
  induction v generalizing force with
  | nil => exact ⟨h, by simp⟩
  | cons f r ih =>
    obtain ⟨hf, hr⟩ := ih _ h
    obtain ⟨hs, hfo⟩ := Bool.or_eq_false_iff.mp hf
    have hse : f.seen = (p f.id).generation := by simpa [EvolvingFilter.changed] using hs
    exact ⟨hfo, forall_mem_cons.mpr ⟨hse, hr⟩⟩

def ActiveRuntimeFilters.pollAll (active : ActiveRuntimeFilters) (polled : Producers) :
    ActiveRuntimeFilters :=
  { active with evolving := active.evolving.map (·.poll polled) }

/-- The snapshots and the slot are those of an expression. -/
def ActiveRuntimeFilters.holding (active : ActiveRuntimeFilters) (e : Expr ℕ) :
    ActiveRuntimeFilters :=
  { active with
    currentEvolving := some e
    providerGeneration := active.providerGeneration + 1
    providerEvolving := some ⟨loweredUpdate active.adapter e, active.providerGeneration + 1⟩ }

lemma refreshEvolving_cases (h : act.refreshEvolving polled n force = .ok (moved, next)) :
    (act.evolving = [] ∧ moved = false ∧ next = act) ∨
    (force = false ∧ (∀ filter ∈ act.evolving, filter.seen = (polled filter.id).generation) ∧
      moved = false ∧ next = act.pollAll polled) ∨
    ∃ ss e, act.evolving.mapM (·.snapshot n) = .ok ss ∧ conjunctionOpt ss = some e ∧ moved = true ∧
      next = (act.pollAll polled).holding e := by
  unfold refreshEvolving at h
  dsimp only at h
  split_ifs at h with hem hc
  · cases h
    exact .inl ⟨isEmpty_iff.mp hem, rfl, rfl⟩
  · cases h
    obtain ⟨hfo, hse⟩ := changed_eq_false act.evolving polled force (by simpa using hc)
    exact .inr (.inl ⟨hfo, hse, rfl, rfl⟩)
  · obtain ⟨ss, hs, hr⟩ := bind_eq_ok h
    rw [mapM_poll] at hs
    refine .inr (.inr ⟨ss, ?_⟩)
    obtain ⟨e, he⟩ : ∃ e, conjunctionOpt ss = some e := by
      cases ss with
      | cons f r => exact ⟨_, rfl⟩
      | nil =>
        -- some filter was snapshotted, so the list is not empty
        obtain ⟨filter, hf⟩ := exists_mem_of_ne_nil act.evolving (by simpa using hem)
        obtain ⟨s, hsn⟩ := mapM_ok_of_mem hs hf
        have hm := (mapM_eq_ok hs s).mpr ⟨filter, hf, hsn⟩
        cases hm
    rw [he] at hr
    cases hsl : act.providerEvolving with
    | none =>
      rw [hsl] at hr
      cases hr
    | some slot =>
      rw [hsl] at hr
      cases hr
      exact ⟨e, hs, he, rfl, by rw [holding]; rfl⟩

/-- The slot and the batch predicate are those of the snapshots of one moment. -/
def ActiveRuntimeFilters.UpToDate (active : ActiveRuntimeFilters) (moment : Producers) : Prop :=
  ∃ snapshots, active.evolving.mapM (·.snapshot moment) = .ok snapshots ∧
    active.currentEvolving = conjunctionOpt snapshots ∧
    active.batchPredicate = conjunctionOpt
      (active.fixedBatchResidual.toList ++ active.currentEvolving.toList) ∧
    ∀ slot, active.providerEvolving = some slot → ∃ e, conjunctionOpt snapshots = some e ∧
      slot.update = loweredUpdate active.adapter e

/-- The moment lies in the past, and no tracker has seen more than it. -/
def ActiveRuntimeFilters.Tracked (active : ActiveRuntimeFilters) (last : Producers) : Prop :=
  ∃ moment, active.UpToDate moment ∧ moment.Later last ∧
    ∀ filter ∈ active.evolving, filter.seen ≤ (moment filter.id).generation

lemma Producers.Later.refl (ps : Producers) : ps.Later ps := fun _ => ⟨le_rfl, fun _ => rfl⟩

lemma Producers.Later.trans {a b c : Producers} (ha : a.Later b) (hb : b.Later c) : a.Later c := by
  intro id
  obtain ⟨hle, hs⟩ := ha id
  obtain ⟨hle', hs'⟩ := hb id
  refine ⟨hle.trans hle', fun heq => ?_⟩
  rw [hs' (by omega), hs (by omega)]

variable {v : List EvolvingFilter}

lemma snapshots_congr {b a : Producers} (h : ∀ f ∈ v, (a f.id).snapshot = (b f.id).snapshot) :
    v.mapM (·.snapshot a) = v.mapM (·.snapshot b) := by
  induction v with
  | nil => rfl
  | cons f r ih =>
    obtain ⟨hf, hr⟩ := forall_mem_cons.mp h
    have hs : f.snapshot a = f.snapshot b := by
      rw [EvolvingFilter.snapshot, EvolvingFilter.snapshot, hf]
    rw [mapM_cons, mapM_cons, ih hr, hs]

lemma seen_poll (h : polled.Later n) :
    ∀ f ∈ v.map (·.poll polled), f.seen ≤ (n f.id).generation := by
  intro f hf
  obtain ⟨o, _, rfl⟩ := mem_map.mp hf
  exact (h o.id).1

lemma upToDate_snapshots {ss : List (Expr ℕ)} {e : Expr ℕ} (p : Producers)
    (hs : act.evolving.mapM (·.snapshot n) = .ok ss) (he : conjunctionOpt ss = some e) :
    ((act.pollAll p).holding e).rebuildBatchPredicate.UpToDate n := by
  refine ⟨ss, ?_, he.symm, rfl, ?_⟩
  · exact (mapM_poll act.evolving p n).trans hs
  · intro s hso
    cases hso
    exact ⟨e, he, rfl⟩

lemma upToDate_empty (m : Producers) (he : next.evolving = [])
    (hc : next.currentEvolving = none) (hb : next.batchPredicate = conjunctionOpt
      (next.fixedBatchResidual.toList ++ next.currentEvolving.toList))
    (hsl : next.providerEvolving = none) : next.UpToDate m := by
  refine ⟨[], ?_, hc, hb, ?_⟩
  · rw [he]
    rfl
  · intro s hs
    rw [hsl] at hs
    cases hs

variable {d : PredicateAdapter ℕ} {fixed : List (Expr ℕ)} {b : BoundTableScan}

lemma new_upToDate (h : new fixed v d b polled n = .ok act)
    (hl : polled.Later n) : act.UpToDate n ∧ act.Tracked n := by
  obtain ⟨pf, _, hre⟩ := bind_eq_ok h
  obtain ⟨⟨moved, r⟩, hr, ha⟩ := bind_eq_ok hre
  cases ha
  have hc : r.rebuildBatchPredicate.UpToDate n ∧
      ∀ f ∈ r.evolving, f.seen ≤ (n f.id).generation := by
    rcases refreshEvolving_cases hr with ⟨hem, -, rfl⟩ | ⟨hfo, -⟩ | ⟨snapshots, e, hs, he, -, rfl⟩
    · have hnil : v = [] := hem
      subst hnil
      exact ⟨upToDate_empty n rfl rfl rfl rfl, fun _ hf => nomatch hf⟩
    · cases hfo
    · exact ⟨upToDate_snapshots polled hs he, seen_poll hl⟩
  exact ⟨hc.1, n, hc.1, .refl n, hc.2⟩

lemma refresh_upToDate {l : Producers} (ht : act.Tracked l)
    (hp : l.Later polled) (hs : polled.Later n) (h : act.refresh polled n = .ok next) :
    (next.UpToDate polled ∨ next.UpToDate n) ∧ next.Tracked n := by
  obtain ⟨m, hc, hpa, hse⟩ := ht
  obtain ⟨⟨moved, r⟩, hr, hne⟩ := bind_eq_ok h
  cases hne
  rcases refreshEvolving_cases hr with ⟨hem, rfl, rfl⟩ | ⟨-, hsa, rfl, rfl⟩ |
    ⟨s, e, hsn, he, rfl, rfl⟩
  · obtain ⟨s, ho, hre⟩ := hc
    have hn (ps : Producers) : r.UpToDate ps := ⟨s, by rw [hem] at ho ⊢; exact ho, hre⟩
    refine ⟨.inl (hn polled), n, hn n, .refl n, ?_⟩
    show ∀ f ∈ r.evolving, f.seen ≤ (n f.id).generation
    rw [hem]
    exact fun _ hf => nomatch hf
  · -- nothing was published since the moment of the last snapshots
    obtain ⟨s, ho, hre⟩ := hc
    have hu : ∀ f ∈ act.evolving, (polled f.id).snapshot = (m f.id).snapshot := by
      intro f hf
      have hl := hse f hf
      have hh := (hpa.trans hp f.id).1
      rw [hsa f hf] at hl
      exact (hpa.trans hp f.id).2 (by omega)
    have hn : (act.pollAll polled).UpToDate polled :=
      ⟨s, ((mapM_poll _ _ _).trans (snapshots_congr hu)).trans ho, hre⟩
    exact ⟨.inl hn, polled, hn, hs, seen_poll (.refl polled)⟩
  · have hn := upToDate_snapshots polled hsn he
    exact ⟨.inr hn, n, hn, .refl n, seen_poll hs⟩

/-- A scan that was opened and refreshed; the trackers were last polled and the
filters last snapshotted at the given moments. -/
inductive Runs (bound : BoundTableScan) (fixed : List (Expr ℕ)) (evolving : List EvolvingFilter)
    (adapter : PredicateAdapter ℕ) : ActiveRuntimeFilters → Producers → Producers → Prop
  | opened {active : ActiveRuntimeFilters} {polled snapped : Producers} :
    polled.Later snapped →
      new fixed evolving adapter bound polled snapped = .ok active →
        Runs bound fixed evolving adapter active polled snapped
  | refreshed {active next : ActiveRuntimeFilters} {before last polled snapped : Producers} :
    Runs bound fixed evolving adapter active before last → last.Later polled →
      polled.Later snapped → active.refresh polled snapped = .ok next →
        Runs bound fixed evolving adapter next polled snapped

lemma Runs.upToDate (h : Runs b fixed v d act polled n) :
    (act.UpToDate polled ∨ act.UpToDate n) ∧ act.Tracked n := by
  induction h with
  | opened hl hn =>
    obtain ⟨hc, ht⟩ := new_upToDate hn hl
    exact ⟨.inr hc, ht⟩
  | refreshed _ hp hs hr ih => exact refresh_upToDate ih.2 hp hs hr

/-- The slot holds the lowering of the snapshots of a moment or nothing, and the
batch predicate asks for all of them. -/
def ActiveRuntimeFilters.CurrentAt (kernels : Kernels ℕ) (active : ActiveRuntimeFilters)
    (moment : Producers) : Prop :=
  ∃ snapshots, active.evolving.mapM (·.snapshot moment) = .ok snapshots ∧
    (∀ slot, active.providerEvolving = some slot → slot.update = .clear ∨
      ∃ e predicate, conjunctionOpt snapshots = some e ∧
        (plan active.adapter e).providerPredicate = some predicate ∧
          slot.update = .replace predicate) ∧
    ∀ row, PassesBatch kernels active.batchPredicate row ↔
      PassesBatch kernels active.fixedBatchResidual row ∧ ∀ e ∈ snapshots, e.IsTrue kernels row

lemma loweredUpdate_cases (d : PredicateAdapter ℕ) (e : Expr ℕ) :
    loweredUpdate d e = .clear ∨ ∃ p, (plan d e).providerPredicate = some p ∧
      loweredUpdate d e = .replace p := by
  unfold loweredUpdate
  split
  next p hp =>
    split_ifs
    · exact .inl rfl
    · exact .inr ⟨p, hp, rfl⟩
  next => exact .inl rfl

lemma UpToDate.currentAt (ks : Kernels ℕ) {m : Producers}
    (h : act.UpToDate m) : act.CurrentAt ks m := by
  obtain ⟨s, hs, hc, hb, hsl⟩ := h
  refine ⟨s, hs, ?_, ?_⟩
  · intro slot hso
    obtain ⟨e, he, hu⟩ := hsl slot hso
    rcases loweredUpdate_cases act.adapter e with hcl | ⟨p, hp, hr⟩
    · exact .inl (hu.trans hcl)
    · exact .inr ⟨e, p, he, hp, hu.trans hr⟩
  · intro row
    rw [hb, passesBatch_conjunctionOpt, ← passesBatch_conjunctionOpt s, ← hc]
    simp only [mem_append, Option.mem_toList, PassesBatch]
    exact ⟨fun h => ⟨fun e he => h e (.inl he), fun e he => h e (.inr he)⟩,
      fun h e he => he.elim (h.1 e) (h.2 e)⟩

end Evolving

/-! ## Lowering as a whole -/

section Lowering

open ActiveRuntimeFilters PhysicalPredicateAdapter

variable {kernels : Kernels ℕ} {logical : Kernels String} {bound : BoundTableScan}
  {rows : SourceRow → Prop}

/-- What lowering keeps of the rows of a table. -/
structure FiltersLowered (kernels : Kernels ℕ) (logical : Kernels String) (bound : BoundTableScan)
    (rows : SourceRow → Prop) : Prop where
  physical : ∀ adapter row source, Reads adapter row source → ∀ e,
    (plan adapter e).Passes kernels row source ↔ e.IsTrue kernels row
  fixed : ∀ fixed evolving adapter polled snapped active,
    new fixed evolving adapter bound polled snapped = .ok active →
      ∀ row source, rows source → Reads adapter row source →
        (PassesProvider active.providerFixed source ∧
            PassesBatch kernels active.fixedBatchResidual row ↔
          ∀ e ∈ fixed, e.IsTrue kernels row)
  evolving : ∀ fixed evolving adapter active polled snapped,
    Runs bound fixed evolving adapter active polled snapped →
      active.CurrentAt kernels polled ∨ active.CurrentAt kernels snapped
  complete : ∀ adapter row source, Reads adapter row source → ∀ filter plan,
    lower adapter filter = some plan →
      plan.Represents logical row source filter
  reported : ∀ adapter filter, StaticFilterSet.support filter adapter bound = .ok .exact →
    ∃ plan negotiated, lower adapter filter = some plan ∧
      bound.negotiatePredicate plan.predicate = .ok (some negotiated) ∧
        ∀ row source, rows source → Reads adapter row source →
          (negotiated.selects source = true ↔ filter.IsTrue logical row)

lemma support_exact {f : Expr String} {d : PredicateAdapter String}
    (h : StaticFilterSet.support f d bound = .ok .exact) :
    ∃ p g, lower d f = some p ∧ p.complete = true ∧ g.support = .exact ∧
      bound.negotiatePredicate p.predicate = .ok (some g) := by
  unfold StaticFilterSet.support at h
  split at h
  next => cases h
  next p hp =>
    obtain ⟨a, ha, hr⟩ := bind_eq_ok h
    cases a with
    | none => cases hr
    | some g =>
      dsimp only at hr
      split_ifs at hr with he
      · exact ⟨p, g, hp, he.2, he.1, ha⟩
      · cases hr

/-- DataFusion filters are lowered without losing or inventing rows. -/
theorem filters_lowered (laws : KernelLaws kernels) (logicalLaws : KernelLaws logical)
    (hsame : logical.order = kernels.order) (contract : ProviderContract bound kernels.order rows) :
    FiltersLowered kernels logical bound rows where
  physical adapter row s reads e := plan_passes laws reads e
  fixed fixed evolving adapter polled snapped active h row s hs reads := by
    obtain ⟨n, hn, hre⟩ := bind_eq_ok h
    obtain ⟨⟨moved, r⟩, hr, ha⟩ := bind_eq_ok hre
    cases ha
    have hk : r.providerFixed = n ∧ r.fixedBatchResidual = fixedResidual (conjunctionOpt fixed)
          (((conjunctionOpt fixed).map (plan adapter)).bind (·.exactResidual))
          (n.map (·.support)) := by
      rcases refreshEvolving_cases hr with ⟨-, -, rfl⟩ | ⟨-, -, -, rfl⟩ |
        ⟨snapshots, e, -, -, -, rfl⟩
      · exact ⟨rfl, rfl⟩
      · exact ⟨rfl, rfl⟩
      · exact ⟨rfl, rfl⟩
    have hf := fixed_passes laws contract hs reads (conjunctionOpt fixed) hn
    rw [rebuildBatchPredicate, hk.1, hk.2, hf]
    exact passesBatch_conjunctionOpt fixed row
  evolving fixed evolving adapter active polled snapped h :=
    h.upToDate.1.imp (UpToDate.currentAt kernels) (UpToDate.currentAt kernels)
  complete adapter row s reads filter plan h := lower_represents logicalLaws reads filter plan h
  reported adapter filter h := by
    obtain ⟨plan, n, hp, hco, he, hn⟩ := support_exact h
    refine ⟨plan, n, hp, hn, fun row s hs reads => ?_⟩
    obtain ⟨hc, hb⟩ := lower_represents logicalLaws reads filter plan hp
    rw [hsame] at hc hb
    constructor
    · intro hse
      exact hb hco (contract.exact plan.predicate n hn he s hs hse)
    · intro ht
      exact contract.covers plan.predicate n hn s hs (hc ht)

end Lowering

/-! ## One scan -/

/-- Arrow's orders, with nested values of one column equal to themselves. -/
def arrowKernels (C : Type) : Kernels C where
  order
    | .nested, .nested => some .eq
    | a, b => a.order byteOrder b
  cast _ value := some value
  operator _ _ _ := none
  function _ _ := none
  other _ _ := none

lemma arrowKernels_laws (C : Type) : KernelLaws (arrowKernels C) where
  order_refl v := by
    cases v with
    | text | binary => exact congrArg some (byteOrder_eq.mpr rfl)
    | number v =>
      cases v with
      | finite r => exact congrArg some (compare_eq_iff_eq.mpr rfl)
      | _ => rfl
    | nested => rfl
    | boolean v => cases v <;> rfl
    | integral v => exact congrArg some (compare_eq_iff_eq.mpr rfl)
  order_swap a b := by
    by_cases hn : a = .nested ∧ b = .nested
    · obtain ⟨rfl, rfl⟩ := hn
      rfl
    · have hp (x y : SqlValue) (h : ¬(x = .nested ∧ y = .nested)) :
          (arrowKernels C).order x y = x.order byteOrder y := by
        cases x <;> cases y <;> first | rfl | exact absurd ⟨rfl, rfl⟩ h
      rw [hp a b hn, hp b a fun h => hn h.symm, order_swap]
  order_boolean a b := rfl
  cast_widening _ _ _ _ _ _ := rfl
  cast_binary _ _ _ _ _ := rfl

/-- Comparisons are applied exactly, conjunctions not at all. -/
def comparingProvider : BoundTableScan where
  negotiatePredicate predicate :=
    match predicate with
    | .comparison _ _ _ => .ok (some ⟨.exact, fun source =>
        predicate.eval (runtimeSemantics (arrowKernels ℕ).order) source == some true⟩)
    | .and _ => .ok (some ⟨.conservative, fun _ => true⟩)
    | _ => .ok none

lemma comparingProvider_contract :
    ProviderContract comparingProvider (arrowKernels ℕ).order fun _ => True where
  covers predicate negotiated h source _ hs := by
    unfold comparingProvider at h
    dsimp only at h
    split at h
    next =>
      cases h
      exact beq_iff_eq.mpr hs
    next =>
      cases h
      rfl
    next => cases h
  exact predicate negotiated h he source _ hse := by
    unfold comparingProvider at h
    dsimp only at h
    split at h
    next =>
      cases h
      exact beq_iff_eq.mp hse
    next =>
      cases h
      cases he
    next => cases h

/-- `level < 7 AND other(0)` over an `int4` output column: the comparison is
pushed exactly and only the rest is left to the batch. -/
def levelFilter : Expr ℕ :=
  .binary (.binary (.column 0) .lt (.literal (.int32 (some 7)))) .and (.other 0)

def levelAdapter : PredicateAdapter ℕ :=
  new [3] [⟨"level", .int32, none⟩]

theorem levelFilter_lowered :
    FiltersLowered (arrowKernels ℕ) (arrowKernels String) comparingProvider (fun _ => True) ∧
      ∃ active, new [levelFilter] [⟨0, .other 1, 0⟩] levelAdapter
          comparingProvider (fun _ => ⟨1, .ok none⟩) (fun _ => ⟨1, .ok none⟩) = .ok active ∧
        active.fixedBatchResidual = some (.other 0) :=
  ⟨filters_lowered (arrowKernels_laws ℕ) (arrowKernels_laws String) rfl comparingProvider_contract,
    _, rfl, rfl⟩

end LagoDB.DataFusionFilters
