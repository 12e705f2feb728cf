import LagoDB.ClaimAccounting

/-!
# What updates and deletes amount to

Ids and paths stay inverse to one another, a row has at most one live claim, and a
claim reports it. A state that claims nothing after it has lost an owner to a rollback
writes the rows it claimed and takes none twice; another state takes a row again only after
such a rollback, and a row that is taken gets at most one successor.
-/
namespace LagoDB.RowClaims

open ActionLog List

variable {ρ : Type} {n : ρ → Except IcebergError Unit}

/-! ## Paths and claims of a run -/

lemma ClaimTable.claim_paths (t : ClaimTable) (s : ModifyStateId) (f : IcebergFileId) (p : ℕ)
    (c : CommandId) (l : ℤ) : (t.claim s f p c l).2.paths = t.paths := by
  rw [ClaimTable.claim]
  split_ifs
  · split
    · split_ifs <;> rfl
    · split
      · split_ifs <;> rfl
      · rfl
  · rfl

lemma paths_step (run : Run ρ) (e : Event ρ) : run.table.paths <+: (run.step n e).table.paths := by
  have hs := run.step_cases n e
  generalize run.step n e = run' at hs ⊢
  cases hs with
  | registered p =>
    simp only [ClaimTable.register]
    split_ifs
    · exact prefix_rfl
    · exact prefix_append _ _
  | claimed _ _ _ _ _ _ _ _ _ ht => rw [ht, ClaimTable.claim_paths]
  | _ => exact prefix_rfl

lemma paths_run (es m : List (Event ρ)) :
    (Run.run n es).table.paths <+: (Run.run n (es ++ m)).table.paths := by
  induction m using List.reverseRecOn with
  | nil => rw [append_nil]
  | append_singleton m e ih =>
    rw [← append_assoc, Run.run.eq_def n (es ++ m ++ [e]), foldl_append]
    exact ih.trans (paths_step _ e)

variable {e : RelationRowRegistry} {fileId f : IcebergFileId}

lemma filePath_eq_ok {path : String} :
    e.filePath f = .ok path ↔ (e.files.map RegisteredFile.path)[f.raw]? = some path := by
  rw [RelationRowRegistry.filePath, List.getElem?_map]
  cases e.files[f.raw]? with
  | none | some => simp

/-- Whether a claim fails: the file is not registered, or the state touched it under another
command and no other state holds the row. -/
def RelationRowRegistry.Refuses (registry : RelationRowRegistry) (state : ModifyStateId)
    (fileId : IcebergFileId) (position : ℕ) (command : CommandId) : Prop :=
  registry.files[fileId.raw]? = none ∨
    ((∃ owner ∈ registry.ownersOf fileId,
      owner.modifyStateId = state ∧ owner.commandId ≠ command) ∧
    ∀ other ∈ registry.ownersOf fileId, other.modifyStateId ≠ state →
      position ∉ registry.rowsOf other.positions)

lemma ownersOf_nil (h : e.files[f.raw]? = none) : e.ownersOf f = [] := by
  rw [RelationRowRegistry.ownersOf, h]

lemma claim_error_iff (h : Consistent e) (s : ModifyStateId) (f : IcebergFileId) (p : ℕ)
    (c : CommandId) (l : ℤ) : (∃ err, (e.claim s f p c l).1 = .error err) ↔ e.Refuses s f p c := by
  obtain ⟨r, n, hre, hst⟩ := claim_step e s f p c l
  rw [hre]
  have hr {o : MutationOwner} (ho : o ∈ e.ownersOf f) : e.files[f.raw]? ≠ none := by
    intro hn
    rw [ownersOf_nil hn] at ho
    cases ho
  -- The owner of a state is unique, so its command decides.
  have ha {o : MutationOwner} (ho : o ∈ e.ownersOf f) (hs : o.modifyStateId = s)
      (hc : o.commandId = c) : ¬e.Refuses s f p c := by
    rintro (hn | ⟨⟨t, hothe, hsa, hd⟩, -⟩)
    · exact hr ho hn
    · rw [h.owner_eq hothe ho (hsa.trans hs.symm)] at hd
      exact hd hc
  cases hst with
  | unknown hf => exact iff_of_true ⟨_, rfl⟩ (.inl hf)
  | otherCommand o hm hs hc hot => exact iff_of_true ⟨_, rfl⟩ (.inr ⟨⟨o, hm, hs, hc⟩, hot⟩)
  | foreign o hm hs hro =>
    refine iff_of_false (by simp) ?_
    rintro (hn | ⟨-, hot⟩)
    · exact hr hm hn
    · exact hot o hm hs hro
  | again o hm hs hc | joined o hm hs hc => exact iff_of_false (by simp) (ha hm hs hc)
  | first file hf hne =>
    refine iff_of_false (by simp) ?_
    rintro (hn | ⟨⟨o, hm, hs, -⟩, -⟩)
    · rw [hf] at hn
      cases hn
    · exact hne o hm hs

variable {position p : ℕ} {s : ModifyStateId} {c : CommandId}

lemma claim_error_unchanged {l : ℤ} {err : IcebergError} (h : (e.claim s f p c l).1 = .error err) :
    (e.claim s f p c l).2 = e := by
  obtain ⟨r, n, hr, hs⟩ := claim_step e s f p c l
  rw [hr] at h ⊢
  cases hs with
  | unknown | otherCommand => rfl
  | foreign | again | joined | first => cases h

variable {t : ClaimTable}

/-- Any other claim takes a row without a live claim, and reports the live claim of a row
that has one. -/
lemma claim_outcome (hco : Consistent e) (h : Refines e t) (ha : ¬e.Refuses s f p c) (l : ℤ) :
    (e.claim s f p c l).1.map RowMutationClaim.outcome = .ok (match t.taken f p with
        | none => .firstTouch | some live => .previouslyModified live.commandId) := by
  obtain ⟨r, n, hre, hst⟩ := claim_step e s f p c l
  rw [hre]
  have hl {o : MutationOwner} (how : o ∈ e.ownersOf f) (hr : p ∈ e.rowsOf o.positions) :
      t.taken f p = some o.live :=
    (h.taken f p o.live).mpr ⟨o, how, hr, rfl⟩
  cases hst with
  | unknown hf => exact absurd (.inl hf) ha
  | otherCommand o hm hs hc ho => exact absurd (.inr ⟨⟨o, hm, hs, hc⟩, ho⟩) ha
  | foreign o hm hs hr | again o hm hs hc hr =>
    rw [hl hm hr]
    rfl
  | joined o hm hs hc hr ho =>
    have hfr : t.taken f p = none := by
      rw [h.taken_eq_none]
      intro ot hot
      by_cases hown : ot.modifyStateId = s
      · rw [hco.owner_eq hot hm (hown.trans hs.symm)]
        exact hr
      · exact ho ot hot hown
    rw [hfr]
    rfl
  | first file hf hn ho =>
    rw [(h.taken_eq_none f p).mpr ho]
    rfl

/-! ## Guarantees -/

/-- What the registry and the callbacks amount to after a run. -/
structure RowClaimGuarantees (encode : ρ → Except IcebergError Unit) (events : List (Event ρ))
    (run : Run ρ) : Prop where
  inverse : ∀ path fileId, run.registry.fileIds.lookup path = some fileId ↔
    run.registry.filePath fileId = .ok path
  bounded : run.registry.files.length ≤ 2 ^ 17
  stable : ∀ more fileId path, run.registry.filePath fileId = .ok path →
    (Run.run encode (events ++ more)).registry.filePath fileId = .ok path
  exclusive : ∀ fileId, ∀ owner ∈ run.registry.ownersOf fileId,
    ∀ other ∈ run.registry.ownersOf fileId, ∀ position ∈ run.registry.rowsOf owner.positions,
      position ∈ run.registry.rowsOf other.positions → owner = other
  live : ∀ fileId position live, run.table.taken fileId position = some live ↔
    ∃ owner ∈ run.registry.ownersOf fileId,
      position ∈ run.registry.rowsOf owner.positions ∧ owner.live = live
  refused : ∀ state fileId position command nestLevel,
    (∃ error, (run.registry.claim state fileId position command nestLevel).1 = .error error) ↔
      run.registry.Refuses state fileId position command
  unchanged : ∀ state fileId position command nestLevel error,
    (run.registry.claim state fileId position command nestLevel).1 = .error error →
      (run.registry.claim state fileId position command nestLevel).2 = run.registry
  outcome : ∀ state fileId position command nestLevel,
    ¬run.registry.Refuses state fileId position command →
      (run.registry.claim state fileId position command nestLevel).1.map
          RowMutationClaim.outcome =
        .ok (match run.table.taken fileId position with
          | none => .firstTouch
          | some live => .previouslyModified live.commandId)
  claimed : ∀ session state, run.Intact session state → ∀ fileId position command,
    run.Claimed session (fileId, position) command ↔
      run.table.taken fileId position = some ⟨state, command⟩
  handedOnce : ∀ session own, run.deletesOf session = some own →
    own.modifyStateId ∉ run.late → (own.positionDeletes.map Prod.fst).Nodup
  written : ∀ session own, run.deletesOf session = some own → own.modifyStateId ∉ run.late →
    ∀ fileId position,
      (∃ positions, (fileId, positions) ∈ own.positionDeletes ∧
        position ∈ run.registry.rowsOf positions) ↔
      ∃ command, run.Claimed session (fileId, position) command
  deletedOnce : run.callbacks.Pairwise fun first second => first.Took → second.Took →
    first.target = second.target → ∀ state, run.stateOf first.session = some state →
      state ∈ run.cut ∧ (second.session = first.session → state ∈ run.late)
  successor : ∀ callback ∈ run.callbacks, callback.appended =
    (callback.claim.map (callback.kind.successor encode)).getD []

lemma exclusive_of_refines (hc : Consistent e) (h : Refines e t) {w o : MutationOwner}
    (how : w ∈ e.ownersOf f) (ho : o ∈ e.ownersOf f) (hr : p ∈ e.rowsOf w.positions)
    (hr' : p ∈ e.rowsOf o.positions) : w = o := by
  have hl := (h.taken f p w.live).mpr ⟨w, how, hr, rfl⟩
  have hl' := (h.taken f p o.live).mpr ⟨o, ho, hr', rfl⟩
  have hs : w.live = o.live := Option.some.inj (hl.symm.trans hl')
  exact hc.owner_eq how ho (congrArg LiveClaim.owner hs)

/-- Every run of registrations, sessions, callbacks, rollbacks and releases. -/
theorem run_rowClaimGuarantees (encode : ρ → Except IcebergError Unit) (events : List (Event ρ)) :
    RowClaimGuarantees encode events (Run.run encode events) := by
  have hs := Sound.run encode events
  obtain ⟨ha, -, hk⟩ := kept_run encode events
  refine
    { inverse := ?_
      bounded := hs.consistent.bounded
      stable := ?_
      exclusive := ?_
      live := hs.refines.taken
      refused := claim_error_iff hs.consistent
      unchanged := fun _ _ _ _ _ _ => claim_error_unchanged
      outcome := fun _ _ _ _ nl hac => claim_outcome hs.consistent hs.refines hac nl
      claimed := ha.claimed
      handedOnce := hk.once
      written := hk.written
      deletedOnce := ha.single
      successor := ha.appended }
  · intro path fileId
    rw [filePath_eq_ok, List.getElem?_map]
    exact hs.consistent.fileIds path fileId
  · intro more fileId path hp
    have hl := Sound.run encode (events ++ more)
    rw [filePath_eq_ok, ← hs.refines.paths] at hp
    rw [filePath_eq_ok, ← hl.refines.paths]
    obtain ⟨a, hadd⟩ := paths_run events more
    rw [← hadd, List.getElem?_append_left (List.getElem?_eq_some_iff.mp hp).1]
    exact hp
  · intro fileId w howne o ho position hr hr'
    exact exclusive_of_refines hs.consistent hs.refines howne ho hr hr'

/-- A state that goes on claiming after it has lost its owner is handed the file again,
and the row gets a second successor. -/
theorem rolledBack_state_rewrites_row :
    ∃ events : List (Event Unit), ((Run.run (fun _ => .ok ()) events).deletesOf 0).map
          (fun own => own.positionDeletes.map fun handed => handed.1.raw) = some [0, 0] ∧
        (Run.run (fun _ => .ok ()) events).callbacks.map
          (fun callback => (callback.target.1.raw, callback.target.2, callback.appended)) =
            [(0, 7, [()]), (0, 7, [()])] :=
  ⟨[.registerFile "data/a.parquet", .openSession true true,
    .mutate 0 (.update ()) ⟨0, by decide⟩ 7 1 2, .rollback 2,
    .mutate 0 (.update ()) ⟨0, by decide⟩ 7 1 1], rfl, rfl⟩

end LagoDB.RowClaims
