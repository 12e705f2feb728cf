import LagoDB.Reachability

/-!
# File cleanup deletes exactly what is unreachable

The sets below say what a snapshot reaches, independently of any traversal. The
two traversals are instances of one rule: whatever the visitor establishes for
the paths it sees, it has established for everything reachable, because what was
skipped was read before.
-/
namespace LagoDB.Reachability

open ExceptLoop List AList CandidateKind

/-! ## What is reachable -/

structure Contents where
  manifestFiles : String → List ManifestFile
  entries : String → List ManifestEntry

structure TrueContents (contents : Contents) (io : FileIO) : Prop where
  lists : ∀ path, io.readManifestList path = .ok (contents.manifestFiles path)
  manifests : ∀ path, io.readManifest path = .ok (contents.entries path)

variable (contents : Contents)

def liveFiles (manifest : String) : Set String :=
  {path | ∃ entry ∈ contents.entries manifest, entry.isAlive = true ∧ entry.filePath = path}

def listObjects (list : String) : Set String :=
  {path | path = list ∨ ∃ file ∈ contents.manifestFiles list,
    path = file.manifestPath ∨ path ∈ liveFiles contents file.manifestPath}

def snapshotObjects (snapshots : List Snapshot) : Set String :=
  {path | ∃ snapshot ∈ snapshots, path ∈ listObjects contents snapshot.manifestList}

def statisticsFiles (metadata : TableMetadata) (snapshots : List Snapshot) : Set String :=
  {path | ∃ snapshot ∈ snapshots, path ∈ statisticsPaths metadata snapshot.snapshotId}

def expiredSnapshots (before after : Table) : List Snapshot :=
  before.metadata.snapshots.filter fun snapshot =>
    snapshot.snapshotId ∉ after.metadata.snapshots.map (·.snapshotId)

/-- The files of expired snapshots and the metadata files that left the log. -/
def expiredFiles (before after : Table) : Set String :=
  {path | path ∈ snapshotObjects contents (expiredSnapshots before after) ∨
    path ∈ statisticsFiles before.metadata (expiredSnapshots before after) ∨
    path ∈ metadataFiles before ∧ path ∉ metadataFiles after}

/-- Everything the new table reaches. -/
def retainedFiles (after : Table) : Set String :=
  {path | path ∈ snapshotObjects contents after.metadata.snapshots ∨
    path ∈ statisticsFiles after.metadata after.metadata.snapshots ∨
    path ∈ metadataFiles after}

/-- Metadata files, statistics files and snapshot objects never share a path. -/
structure PathsDisjoint (contents : Contents) (before after : Table) : Prop where
  objects_statistics : ∀ path,
    path ∈ snapshotObjects contents (before.metadata.snapshots ++ after.metadata.snapshots) →
    path ∉ statisticsFiles before.metadata before.metadata.snapshots ∧
      path ∉ statisticsFiles after.metadata after.metadata.snapshots
  objects_metadata : ∀ path,
    path ∈ snapshotObjects contents (before.metadata.snapshots ++ after.metadata.snapshots) →
    path ∉ metadataFiles before ∧ path ∉ metadataFiles after
  statistics_metadata : ∀ path,
    path ∈ statisticsFiles before.metadata before.metadata.snapshots ∨
      path ∈ statisticsFiles after.metadata after.metadata.snapshots →
    path ∉ metadataFiles before ∧ path ∉ metadataFiles after

/-! ## The traversal rule -/

section Walk

variable {σ : Type} {visit : CandidateKind → String → σ → Except Stop σ} {cs : Contents}
  {io : FileIO} {allowed : CandidateKind → String → Prop} {I : σ → Prop} {done : σ → String → Prop}

def Keeps (done : σ → String → Prop) (s s' : σ) : Prop := ∀ path, done s path → done s' path

/-- Visiting an allowed path succeeds, keeps the invariant, and settles the
path for good. -/
def Settles (visit : CandidateKind → String → σ → Except Stop σ)
    (allowed : CandidateKind → String → Prop) (I : σ → Prop) (done : σ → String → Prop) : Prop :=
  ∀ kind path s, allowed kind path → I s →
    ∃ s', visit kind path s = .ok s' ∧ I s' ∧ Keeps done s s' ∧ done s' path

/-- Whatever was read before has been settled with all it contains. -/
structure Closed (contents : Contents) (done : σ → String → Prop) (walked : Walked) (s : σ) :
    Prop where
  lists : ∀ list ∈ walked.lists, ∀ path ∈ listObjects contents list, done s path
  manifests : ∀ manifest ∈ walked.manifests, ∀ path ∈ liveFiles contents manifest, done s path

lemma Closed.mono {w : Walked} {s s' : σ} (h : Closed cs done w s)
    (hk : Keeps done s s') : Closed cs done w s' :=
  ⟨fun l hl path hp => hk path (h.lists l hl path hp),
    fun m hm path hp => hk path (h.manifests m hm path hp)⟩

lemma Keeps.refl (s : σ) : Keeps done s s := fun _ h => h

lemma Keeps.trans {a b c : σ} (ha : Keeps done a b) (hb : Keeps done b c) : Keeps done a c :=
  fun path h => hb path (ha path h)

section

variable (hv : Settles visit allowed I done)

include hv

section

variable (hi : TrueContents cs io)

include hi

lemma walkManifest_spec (file : ManifestFile) (hal : ∀ path ∈ liveFiles cs file.manifestPath,
      allowed (.ofContent file.content) path) (s : σ) (hs : I s) :
    ∃ s', walkManifest visit io file s = .ok s' ∧ I s' ∧ Keeps done s s' ∧
      ∀ path ∈ liveFiles cs file.manifestPath, done s' path := by
  have hl := foldlM_establishes (f := walkEntry visit file.content) (I := I)
    (R := Keeps done) (P := fun e s => e.isAlive = true → done s e.filePath)
    Keeps.refl (fun _ _ _ => Keeps.trans)
    (fun e s s' hp hk ha => hk _ (hp ha))
    (cs.entries file.manifestPath) ?_ s hs
  · obtain ⟨s', hr, hs', hk, hall⟩ := hl
    refine ⟨s', ?_, hs', hk, ?_⟩
    · unfold walkManifest
      rw [hi.manifests]
      exact hr
    · rintro path ⟨e, he, ha, rfl⟩
      exact hall e he ha
  · intro e he s hs
    by_cases ha : e.isAlive = true
    · obtain ⟨s', hr, hs', hk, hd⟩ := hv _ _ s (hal e.filePath ⟨e, he, ha, rfl⟩) hs
      exact ⟨s', by simp only [walkEntry, ha, if_true, hr], hs', hk, fun _ => hd⟩
    · exact ⟨s, by simp [walkEntry, ha], hs, Keeps.refl s, fun h => absurd h ha⟩

lemma walkFile_spec (f : ManifestFile) (hf : allowed .manifest f.manifestPath)
    (ha : ∀ path ∈ liveFiles cs f.manifestPath, allowed (.ofContent f.content) path)
    (w : Walked) (s : σ) (hs : I s) (hc : ∀ m ∈ w.manifests, ∀ path ∈ liveFiles cs m, done s path) :
    ∃ w' s', walkFile visit io (w, s) f = .ok (w', s') ∧ I s' ∧
      Keeps done s s' ∧ w'.lists = w.lists ∧
      (∀ m ∈ w'.manifests, ∀ path ∈ liveFiles cs m, done s' path) ∧ done s' f.manifestPath ∧
      ∀ path ∈ liveFiles cs f.manifestPath, done s' path := by
  obtain ⟨s₁, hr, hs₁, hk, hd⟩ := hv _ _ s hf hs
  by_cases hse : f.manifestPath ∈ w.manifests
  · refine ⟨w, s₁, ?_, hs₁, hk, rfl, ?_, hd, ?_⟩
    · simp only [walkFile, bind_ok hr, if_pos hse]
    · exact fun m hm path hp => hk path (hc m hm path hp)
    · exact fun path hp => hk path (hc _ hse path hp)
  · obtain ⟨s₂, hr₂, hs₂, hk₂, hl⟩ := walkManifest_spec hv hi f ha s₁ hs₁
    refine ⟨{ w with manifests := f.manifestPath :: w.manifests }, s₂, ?_, hs₂,
      hk.trans hk₂, rfl, ?_, hk₂ _ hd, hl⟩
    · simp only [walkFile, bind_ok hr, if_neg hse, bind_ok hr₂]
    · intro m hm path hp
      rcases mem_cons.mp hm with rfl | hm
      · exact hl path hp
      · exact hk₂ path (hk path (hc m hm path hp))

lemma walkSnapshot_spec (n : Snapshot)
    (ha : ∀ kind, kind.isSnapshotObject = true → ∀ path ∈ listObjects cs n.manifestList,
      allowed kind path) (w : Walked) (s : σ) (hs : I s) (hc : Closed cs done w s) :
    ∃ w' s', walkSnapshot visit io n (w, s) = .ok (w', s') ∧ I s' ∧ Keeps done s s' ∧
      Closed cs done w' s' ∧ ∀ path ∈ listObjects cs n.manifestList, done s' path := by
  obtain ⟨s₁, hr, hs₁, hke, hd⟩ := hv _ _ s (ha .manifestList rfl n.manifestList (.inl rfl)) hs
  by_cases hse : n.manifestList ∈ w.lists
  · refine ⟨w, s₁, ?_, hs₁, hke, hc.mono hke, ?_⟩
    · simp only [walkSnapshot, bind_ok hr, if_pos hse]
    · exact fun path hpa => hke path (hc.lists _ hse path hpa)
  · -- the list counts as read from here on, but is closed only after the loop
    have hlo := foldlM_establishes (f := walkFile visit io)
      (I := fun t : Walked × σ => I t.2 ∧ t.1.lists = n.manifestList :: w.lists ∧
        ∀ m ∈ t.1.manifests, ∀ path ∈ liveFiles cs m, done t.2 path)
      (R := fun t t' => Keeps done t.2 t'.2)
      (P := fun file t => done t.2 file.manifestPath ∧
        ∀ path ∈ liveFiles cs file.manifestPath, done t.2 path)
      (fun t => Keeps.refl t.2) (fun _ _ _ => Keeps.trans)
      (fun file t t' hp hk => ⟨hk _ hp.1, fun path hpa => hk path (hp.2 path hpa)⟩)
      (cs.manifestFiles n.manifestList) ?_
      ({ w with lists := n.manifestList :: w.lists }, s₁)
      ⟨hs₁, rfl, (hc.mono hke).manifests⟩
    · obtain ⟨⟨w₂, s₂⟩, hr₂, ⟨hs₂, hl, hm⟩, hke₂, hal⟩ := hlo
      have ho : ∀ path ∈ listObjects cs n.manifestList, done s₂ path := by
        rintro path (rfl | ⟨file, hf, rfl | hliv⟩)
        · exact hke₂ _ hd
        · exact (hal file hf).1
        · exact (hal file hf).2 path hliv
      refine ⟨w₂, s₂, ?_, hs₂, hke.trans hke₂, ⟨?_, hm⟩, ho⟩
      · simp only [walkSnapshot, bind_ok hr, if_neg hse, hi.lists, returned]
        exact hr₂
      · intro l hli path hpa
        rw [hl] at hli
        rcases mem_cons.mp hli with rfl | hli
        · exact ho path hpa
        · exact hke₂ path (hke path (hc.lists l hli path hpa))
    · rintro file hf ⟨w', t⟩ ⟨ht, hl, hm⟩
      obtain ⟨w₂, t₂, hr₂, ht₂, hke₂, hsa, hc₂, hpa, hliv⟩ := walkFile_spec hv hi file
          (ha .manifest rfl _ (.inr ⟨file, hf, .inl rfl⟩))
          (fun path hpa => ha _ (by cases file.content <;> rfl) path
            (.inr ⟨file, hf, .inr hpa⟩)) w' t ht hm
      exact ⟨(w₂, t₂), hr₂, ⟨ht₂, hsa.trans hl, hc₂⟩, hke₂, hpa, hliv⟩

end

lemma visitStatistics_spec (m : TableMetadata) (i : ℤ)
    (ha : ∀ path ∈ statisticsPaths m i, allowed .statistics path) (s : σ) (hs : I s) :
    ∃ s', visitStatistics visit m i s = .ok s' ∧ I s' ∧ Keeps done s s' ∧
      ∀ path ∈ statisticsPaths m i, done s' path :=
  foldlM_establishes (f := fun s path => visit .statistics path s) (R := Keeps done)
    (P := fun path s => done s path) Keeps.refl (fun _ _ _ => Keeps.trans)
    (fun path _ _ hp hk => hk path hp) _
    (fun path hpa s hs => hv _ path s (ha path hpa) hs) s hs

end

end Walk

/-! ## Seeding collects the expired files -/

section Seeding

variable {cs : Contents} {b after : Table}

/-- Where a candidate of each kind comes from. -/
def Origin (contents : Contents) (before after : Table) (kind : CandidateKind) (path : String) :
    Prop :=
  match kind with
  | .statistics => path ∈ statisticsFiles before.metadata (expiredSnapshots before after)
  | .metadata => path ∈ metadataFiles before ∧ path ∉ metadataFiles after
  | _ => path ∈ snapshotObjects contents (expiredSnapshots before after)

variable {kind : CandidateKind} {path : String}

lemma origin_of_snapshotObject (hk : kind.isSnapshotObject = true) :
    Origin cs b after kind path ↔ path ∈ snapshotObjects cs (expiredSnapshots b after) := by
  cases kind with
  | statistics | metadata => cases hk
  | _ => exact Iff.rfl

lemma Origin.expired (h : Origin cs b after kind path) : path ∈ expiredFiles cs b after := by
  cases kind with
  | statistics => exact .inr (.inl h)
  | metadata => exact .inr (.inr h)
  | _ => exact .inl h

def Seeded (contents : Contents) (before after : Table) (candidates : Candidates) : Prop :=
  ∀ path kind, candidates.lookup path = some kind → Origin contents before after kind path

variable {ns : Candidates}

lemma mem_orInsert {o : String} : o ∈ orInsert ns path kind ↔ o = path ∨ o ∈ ns := by
  unfold orInsert
  split_ifs with hm
  · refine ⟨.inr, ?_⟩
    rintro (rfl | h)
    · exact hm
    · exact h
  · exact mem_insert ns

lemma Seeded.orInsert (h : Seeded cs b after ns) (hk : Origin cs b after kind path) :
    Seeded cs b after (orInsert ns path kind) := by
  intro o k' hl
  unfold Reachability.orInsert at hl
  split_ifs at hl with hm
  · exact h o k' hl
  · by_cases hs : o = path
    · subst o
      rw [lookup_insert] at hl
      cases hl
      exact hk
    · rw [lookup_insert_ne hs] at hl
      exact h o k' hl

lemma seed_settles :
    Settles seed (Origin cs b after) (Seeded cs b after) (fun ns path => path ∈ ns) :=
  fun _ _ _ hk hs => ⟨_, rfl, hs.orInsert hk,
    fun _ hm => mem_orInsert.mpr (.inr hm), mem_orInsert.mpr (.inl rfl)⟩

lemma mem_expiredSnapshots {s : Snapshot} :
    s ∈ expiredSnapshots b after ↔ s ∈ b.metadata.snapshots ∧
      s.snapshotId ∉ after.metadata.snapshots.map (·.snapshotId) := by
  simp [expiredSnapshots]

variable (after) in
lemma seedExpired_spec (hi : TrueContents cs b.fileIo) (snapshot : Snapshot)
    (hsn : snapshot ∈ b.metadata.snapshots) (s : Walked × Candidates) (hs : Seeded cs b after s.2)
    (hc : Closed cs (fun candidates path => path ∈ candidates) s.1 s.2) :
    ∃ s', seedExpired b (after.metadata.snapshots.map (·.snapshotId)) s snapshot = .ok s' ∧
      Seeded cs b after s'.2 ∧ Closed cs (fun candidates path => path ∈ candidates) s'.1 s'.2 ∧
      Keeps (fun candidates path => path ∈ candidates) s.2 s'.2 ∧
      (snapshot ∈ expiredSnapshots b after →
        (∀ path ∈ listObjects cs snapshot.manifestList, path ∈ s'.2) ∧
        ∀ path ∈ statisticsPaths b.metadata snapshot.snapshotId, path ∈ s'.2) := by
  by_cases hr : snapshot.snapshotId ∈ after.metadata.snapshots.map (·.snapshotId)
  · refine ⟨s, by simp only [seedExpired, if_pos hr], hs, hc, Keeps.refl _, ?_⟩
    exact fun he => absurd hr (mem_expiredSnapshots.mp he).2
  · have he : snapshot ∈ expiredSnapshots b after := mem_expiredSnapshots.mpr ⟨hsn, hr⟩
    obtain ⟨w, candidates, hru, hse, hk, hc', ho⟩ := walkSnapshot_spec seed_settles hi snapshot
        (fun kind hki path hp => (origin_of_snapshotObject hki).mpr ⟨snapshot, he, hp⟩)
        s.1 s.2 hs hc
    obtain ⟨c', hru', hse', hk', hst⟩ :=
      visitStatistics_spec seed_settles b.metadata snapshot.snapshotId
        (fun path hp => (⟨snapshot, he, hp⟩ :
          path ∈ statisticsFiles b.metadata (expiredSnapshots b after)))
        candidates hse
    refine ⟨(w, c'), ?_, hse', hc'.mono hk', hk.trans hk',
      fun _ => ⟨fun path hp => hk' path (ho path hp), hst⟩⟩
    simp only [seedExpired, if_neg hr, seedSnapshotCandidates, bind_ok hru, bind_ok hru']

variable (after) in
lemma seedMetadata_fold (fs : List String)
    (hf : ∀ path ∈ fs, path ∈ metadataFiles b) (candidates : Candidates)
    (hs : Seeded cs b after candidates) :
    let result := fs.foldl (fun candidates path =>
      if path ∈ metadataFiles after then candidates else orInsert candidates path .metadata)
      candidates
    Seeded cs b after result ∧
      ∀ path, path ∈ result ↔ path ∈ candidates ∨ path ∈ fs ∧ path ∉ metadataFiles after := by
  induction fs generalizing candidates with
  | nil => exact ⟨hs, by simp⟩
  | cons f r ih =>
    have hr : ∀ path ∈ r, path ∈ metadataFiles b := fun path hp => hf path (mem_cons_of_mem f hp)
    have hsp (path) : path = f ∨ path ≠ f := eq_or_ne path f
    by_cases hk : f ∈ metadataFiles after
    · obtain ⟨hse, hm⟩ := ih hr candidates hs
      simp only [foldl_cons, if_pos hk]
      refine ⟨hse, fun path => ?_⟩
      rcases hsp path with rfl | hsa <;> simp [*]
    · obtain ⟨hse, hm⟩ := ih hr (orInsert candidates f .metadata)
        (hs.orInsert ⟨hf f mem_cons_self, hk⟩)
      simp only [foldl_cons, if_neg hk]
      refine ⟨hse, fun path => ?_⟩
      rw [hm path, mem_orInsert]
      rcases hsp path with rfl | hsa <;> simp [*]

variable (after) in
/-- The candidate map before the subtraction: exactly the expired files, each
under a kind that says where it comes from. -/
lemma seeding_spec (hi : TrueContents cs b.fileIo) :
    ∃ d, b.metadata.snapshots.foldlM
        (seedExpired b (after.metadata.snapshots.map (·.snapshotId))) (⟨[], []⟩, ∅) = .ok d ∧
      Seeded cs b after (seedMetadata b after d.2) ∧
      ∀ path, path ∈ seedMetadata b after d.2 ↔
        path ∈ expiredFiles cs b after := by
  obtain ⟨d, hr, ⟨hse, -⟩, -, ha⟩ := foldlM_establishes
    (f := seedExpired b (after.metadata.snapshots.map (·.snapshotId)))
    (I := fun s => Seeded cs b after s.2 ∧
      Closed cs (fun c path => path ∈ c) s.1 s.2)
    (R := fun s s' => Keeps (fun (c : Candidates) path => path ∈ c) s.2 s'.2)
    (P := fun n s => n ∈ expiredSnapshots b after →
      (∀ path ∈ listObjects cs n.manifestList, path ∈ s.2) ∧
      ∀ path ∈ statisticsPaths b.metadata n.snapshotId, path ∈ s.2)
    (fun s => Keeps.refl s.2) (fun _ _ _ => Keeps.trans)
    (fun _ _ _ hp hk he => ⟨fun path hpa => hk path ((hp he).1 path hpa),
        fun path hpa => hk path ((hp he).2 path hpa)⟩)
    b.metadata.snapshots
    (fun n hsn s hs => by
      obtain ⟨s', hr, hse, hc, hk, hd⟩ := seedExpired_spec after hi n hsn s hs.1 hs.2
      exact ⟨s', hr, ⟨hse, hc⟩, hk, hd⟩)
    (⟨[], []⟩, ∅) ⟨by simp [Seeded], by constructor <;> simp⟩
  obtain ⟨hm, hme⟩ := seedMetadata_fold after (metadataFiles b) (fun _ h => h) d.2 hse
  refine ⟨d, hr, hm, fun path => ⟨fun h => ?_, fun h => ?_⟩⟩
  · obtain ⟨kind, hki⟩ := Option.isSome_iff_exists.mp (lookup_isSome.mpr h)
    exact (hm path kind hki).expired
  · refine (hme path).mpr ?_
    rcases h with ⟨n, he, hpa⟩ | ⟨n, he, hpa⟩ | hl
    · exact .inl ((ha n (mem_expiredSnapshots.mp he).1 he).1 path hpa)
    · exact .inl ((ha n (mem_expiredSnapshots.mp he).1 he).2 path hpa)
    · exact .inr hl

end Seeding

/-! ## Subtraction -/

section Subtraction

variable {cs : Contents} {b after : Table}

variable {path : String} {kind : CandidateKind} {ns : Candidates}

lemma countKind_erase (test : CandidateKind → Bool) (h : ns.lookup path = some kind) :
    countKind test ns = countKind test (ns.erase path) + if test kind then 1 else 0 := by
  have hm : path ∈ ns.entries.keys := mem_keys.mp (lookup_isSome.mp (by rw [h]; rfl))
  obtain ⟨k', l, right, hle, he, her⟩ := exists_of_kerase hm
  have hk : k' = kind := by
    have hent : (⟨path, k'⟩ : Sigma fun _ : String => CandidateKind) ∈ ns.entries := by
      rw [he]
      simp
    have hl := mem_lookup_iff.mpr hent
    rw [h] at hl
    exact (Option.some.inj hl).symm
  subst hk
  change ns.entries.countP _ = (ns.entries.kerase path).countP _ + _
  rw [her, he, countP_append, countP_append, countP_cons]
  ring

lemma countKind_eq_zero {test : CandidateKind → Bool}
    (h : countKind test ns = 0) (hl : ns.lookup path = some kind) : test kind = false := by
  have hc := countKind_erase test hl
  rw [h] at hc
  cases ht : test kind with
  | false => rfl
  | true =>
    rw [ht] at hc
    simp at hc

/-- What is gone from the candidates or the listing was retained, and the
counters agree with the map. -/
structure Swept (first : Candidates) (listed : List String) (retained : Set String) (s : Sweep) :
    Prop where
  candidates : ∀ path kind, s.candidates.lookup path = some kind → first.lookup path = some kind
  removed : ∀ path ∈ first, path ∉ s.candidates → path ∈ retained
  snapshotCount : s.snapshotCandidateCount = countKind (·.isSnapshotObject) s.candidates
  statisticsCount : s.statisticsCandidateCount = countKind (·.isStatistics) s.candidates
  orphans : ∀ path ∈ s.orphanCandidates, path ∈ listed
  orphansRemoved : ∀ path ∈ listed, path ∉ s.orphanCandidates → path ∈ retained

def Gone (s : Sweep) (path : String) : Prop := path ∉ s.candidates ∧ path ∉ s.orphanCandidates

lemma mem_removePath {ps : List String} {o : String} :
    o ∈ removePath ps path ↔ o ∈ ps ∧ o ≠ path := by
  simp [removePath]

/-- The sweep with `path` removed from the map and both counters recounted. -/
def Sweep.without (s : Sweep) (path : String) : Sweep where
  candidates := s.candidates.erase path
  snapshotCandidateCount := countKind (·.isSnapshotObject) (s.candidates.erase path)
  statisticsCandidateCount := countKind (·.isStatistics) (s.candidates.erase path)
  orphanCandidates := s.orphanCandidates

variable {s : Sweep}

lemma removeCandidate_eq (path : String)
    (hsn : s.snapshotCandidateCount = countKind (·.isSnapshotObject) s.candidates)
    (hs : s.statisticsCandidateCount = countKind (·.isStatistics) s.candidates) :
    removeCandidate path s = .ok (s.without path) := by
  cases hl : s.candidates.lookup path with
  | none =>
    have ha : path ∉ s.candidates := lookup_eq_none.mp hl
    have he : s.candidates.erase path = s.candidates := AList.ext (kerase_of_notMem_keys ha)
    simp only [removeCandidate, hl, Sweep.without, he, ← hsn, ← hs]
  | some kind =>
    have ho := countKind_erase (·.isSnapshotObject) hl
    have hst := countKind_erase (·.isStatistics) hl
    rw [← hsn] at ho
    rw [← hs] at hst
    cases kind <;>
      simp [isSnapshotObject, isStatistics] at ho hst <;>
      simp [removeCandidate, hl, Sweep.without, isSnapshotObject, isStatistics, ho, hst]

variable {first : Candidates} {r : Set String} {listed : List String}

lemma Swept.without (h : Swept first listed r s) (hp : path ∈ r) :
    Swept first listed r (s.without path) where
  candidates other kind ho := by
    change (s.candidates.erase path).lookup other = some kind at ho
    by_cases hs : other = path
    · subst other
      rw [lookup_erase] at ho
      cases ho
    · rw [lookup_erase_ne hs] at ho
      exact h.candidates other kind ho
  removed other hfirst hg := by
    by_cases hs : other = path
    · subst other
      exact hp
    · exact h.removed other hfirst fun hm => hg (mem_erase.mpr ⟨hs, hm⟩)
  snapshotCount := rfl
  statisticsCount := rfl
  orphans := h.orphans
  orphansRemoved := h.orphansRemoved

lemma Swept.removePath (h : Swept first listed r s) (hp : path ∈ r) : Swept first listed r
      { s with orphanCandidates := removePath s.orphanCandidates path } where
  candidates := h.candidates
  removed := h.removed
  snapshotCount := h.snapshotCount
  statisticsCount := h.statisticsCount
  orphans other ho := h.orphans other (mem_removePath.mp ho).1
  orphansRemoved other hl hg := by
    by_cases hs : other = path
    · subst other
      exact hp
    · exact h.orphansRemoved other hl fun hm => hg (mem_removePath.mpr ⟨hm, hs⟩)

lemma subtract_settles (first : Candidates) (ls : List String) (r : Set String) :
    Settles subtract (fun _ path => path ∈ r) (Swept first ls r) Gone := by
  intro kind path s hp hs
  have hr := removeCandidate_eq path hs.snapshotCount hs.statisticsCount
  refine ⟨_, by simp only [subtract, bind_ok hr], (hs.without hp).removePath hp, ?_, ?_⟩
  · rintro o ⟨hc, ho⟩
    exact ⟨fun hm => hc (mem_erase.mp hm).2, fun hm => ho (mem_removePath.mp hm).1⟩
  · exact ⟨fun hm => (mem_erase.mp hm).1 rfl, fun hm => (mem_removePath.mp hm).2 rfl⟩

/-! ### Stopping early

Once no counted candidate and no orphan is left, the remaining candidates are
metadata files, and no snapshot of the new table reaches those. -/

section

variable (h : Swept first listed r s) (hf : Seeded cs b after first)
  (hdj : PathsDisjoint cs b after) (hor : s.orphanCandidates = [])

include h hf hor

lemma gone_of_origin (hn : ∀ kind, s.candidates.lookup path = some kind →
    Origin cs b after kind path → False) : Gone s path := by
  refine ⟨fun hm => ?_, by simp [hor]⟩
  obtain ⟨kind, hk⟩ := Option.isSome_iff_exists.mp (lookup_isSome.mpr hm)
  exact hn kind hk (hf path kind (h.candidates path kind hk))

include hdj

lemma gone_object (hc : s.snapshotCandidateCount = 0)
    (hp : path ∈ snapshotObjects cs after.metadata.snapshots) : Gone s path := by
  obtain ⟨n, hsn, hr⟩ := hp
  have ho : path ∈ snapshotObjects cs (b.metadata.snapshots ++ after.metadata.snapshots) :=
    ⟨n, mem_append_right _ hsn, hr⟩
  refine gone_of_origin h hf hor fun kind hk hori => ?_
  cases kind with
  | statistics =>
    obtain ⟨e, he, hs⟩ := hori
    exact (hdj.objects_statistics path ho).1 ⟨e, (mem_expiredSnapshots.mp he).1, hs⟩
  | metadata => exact (hdj.objects_metadata path ho).1 hori.1
  | _ => cases countKind_eq_zero (h.snapshotCount ▸ hc) hk

lemma gone_statistics (hc : s.statisticsCandidateCount = 0)
    (hp : path ∈ statisticsFiles after.metadata after.metadata.snapshots) : Gone s path := by
  have hobj : path ∉ snapshotObjects cs (expiredSnapshots b after) := by
    rintro ⟨e, he, hr⟩
    exact (hdj.objects_statistics path ⟨e,
      mem_append_left _ (mem_expiredSnapshots.mp he).1, hr⟩).2 hp
  refine gone_of_origin h hf hor fun kind hk ho => ?_
  cases kind with
  | statistics => cases countKind_eq_zero (h.statisticsCount ▸ hc) hk
  | metadata => exact (hdj.statistics_metadata path (.inr hp)).1 ho.1
  | _ => exact hobj ho

end

lemma subtractRetained_spec (hi : TrueContents cs after.fileIo) (hf : Seeded cs b after first)
    (hdj : PathsDisjoint cs b after) (ss : List Snapshot)
    (hsu : ∀ n ∈ ss, n ∈ after.metadata.snapshots) (w : Walked) (s : Sweep)
    (hs : Swept first listed (retainedFiles cs after) s) (hcl : Closed cs Gone w s) :
    ∃ r, subtractRetained after ss (w, s) = .ok r ∧
      Swept first listed (retainedFiles cs after) r.2 ∧ Keeps Gone s r.2 ∧
      ∀ n ∈ ss, (∀ path ∈ listObjects cs n.manifestList, Gone r.2 path) ∧
        ∀ path ∈ statisticsPaths after.metadata n.snapshotId, Gone r.2 path := by
  induction ss generalizing w s with
  | nil => exact ⟨(w, s), rfl, hs, Keeps.refl s, by simp⟩
  | cons n rest ih =>
    have hm := hsu n mem_cons_self
    have hre : ∀ o ∈ rest, o ∈ after.metadata.snapshots := fun o ho => hsu o (mem_cons_of_mem n ho)
    have hvisit := subtract_settles first listed (retainedFiles cs after)
    by_cases hb : s.snapshotCandidateCount = 0 ∧ s.statisticsCandidateCount = 0 ∧
        s.orphanCandidates = []
    · refine ⟨(w, s), by simp only [subtractRetained, if_pos hb], hs, Keeps.refl s, ?_⟩
      intro o ho
      have ho := hsu o ho
      exact ⟨fun path hp => gone_object hs hf hdj hb.2.2 hb.1 ⟨o, ho, hp⟩,
        fun path hp => gone_statistics hs hf hdj hb.2.2 hb.2.1 ⟨o, ho, hp⟩⟩
    obtain ⟨s₁, hr₁, hs₁, hk₁, hst⟩ := visitStatistics_spec hvisit after.metadata n.snapshotId
        (fun path hp => .inr (.inl ⟨n, hm, hp⟩)) s hs
    by_cases hc : s₁.snapshotCandidateCount = 0 ∧ s₁.orphanCandidates = []
    · obtain ⟨r, hr, hsw, hk, ha⟩ := ih hre w s₁ hs₁ (hcl.mono hk₁)
      refine ⟨r, ?_, hsw, hk₁.trans hk, ?_⟩
      · simp only [subtractRetained, if_neg hb, bind_ok hr₁, if_pos hc]
        exact hr
      · intro o ho
        rcases mem_cons.mp ho with rfl | ho
        · refine ⟨fun path hp => hk path ?_, fun path hp => hk path (hst path hp)⟩
          exact gone_object hs₁ hf hdj hc.2 hc.1 ⟨o, hm, hp⟩
        · exact ha o ho
    · obtain ⟨w₂, s₂, hr₂, hs₂, hk₂, hcl₂, hob⟩ := walkSnapshot_spec hvisit hi n
          (fun _ _ path hp => .inl ⟨n, hm, hp⟩) w s₁ hs₁ (hcl.mono hk₁)
      obtain ⟨r, hr, hsw, hk, ha⟩ := ih hre w₂ s₂ hs₂ hcl₂
      refine ⟨r, ?_, hsw, hk₁.trans (hk₂.trans hk), ?_⟩
      · simp only [subtractRetained, if_neg hb, bind_ok hr₁, if_neg hc, bind_ok hr₂]
        exact hr
      · intro o ho
        rcases mem_cons.mp ho with rfl | ho
        · exact ⟨fun path hp => hk path (hob path hp),
            fun path hp => hk path (hk₂ path (hst path hp))⟩
        · exact ha o ho

end Subtraction

/-! ## The result -/

section Result

lemma mem_foldl_erase (fs : List String) (ns : Candidates) (path : String) :
    path ∈ fs.foldl (fun map f => map.erase f) ns ↔ path ∈ ns ∧ path ∉ fs := by
  induction fs generalizing ns with
  | nil => simp
  | cons f r ih =>
    rw [foldl_cons, ih, mem_erase, mem_cons]
    tauto

lemma mem_foldl_removePath (fs ps : List String) (path : String) :
    path ∈ fs.foldl removePath ps ↔ path ∈ ps ∧ path ∉ fs := by
  induction fs generalizing ps with
  | nil => simp
  | cons f r ih =>
    rw [foldl_cons, ih, mem_removePath, mem_cons]
    tauto

def ReachabilityDeletionCandidates.total (result : ReachabilityDeletionCandidates) : ℕ :=
  result.data + result.delete + result.manifest + result.manifestList + result.statistics +
    result.metadata

def overflow : Stop := .error (.vacuum "reachability candidate count overflow")

open ReachabilityDeletionCandidates

lemma countCandidate_cases (r : ReachabilityDeletionCandidates) (kind : CandidateKind) :
    (∃ r', countCandidate r kind = .ok r' ∧ r'.total = r.total + 1) ∨
      countCandidate r kind = .error overflow ∧ 2 ^ 64 ≤ r.total + 1 := by
  cases kind <;>
    simp only [countCandidate, increment] <;>
    split_ifs with hf
  all_goals first
    | exact .inl ⟨_, rfl, by simp only [total]; omega⟩
    | exact .inr ⟨rfl, by simp only [total]; omega⟩

lemma count_cases (ks : List CandidateKind) (r : ReachabilityDeletionCandidates) :
    (∃ r', ks.foldlM countCandidate r = .ok r' ∧ r'.total = r.total + ks.length) ∨
      ks.foldlM countCandidate r = .error overflow ∧ 2 ^ 64 ≤ r.total + ks.length := by
  induction ks generalizing r with
  | nil => exact .inl ⟨r, rfl, rfl⟩
  | cons kind rest ih =>
    rw [foldlM_cons, length_cons]
    rcases countCandidate_cases r kind with ⟨result₁, hc, ht⟩ | ⟨hc, hm⟩
    · rw [bind_ok hc]
      rcases ih result₁ with ⟨result₂, hr, ht₂⟩ | ⟨hr, hm⟩
      · exact .inl ⟨result₂, hr, by omega⟩
      · exact .inr ⟨hr, by omega⟩
    · refine .inr ⟨by rw [hc]; rfl, by omega⟩

/-- Every way the cleanup can end. A result is exact; an error means that a file
to be deleted lies outside the table's directory or that a counter is full; no
`expect` fires. -/
def CleanupExact (contents : Contents) (before after : Table) (root : ManagedTableRoot)
    (listed : List String) :
    Except Stop (ReachabilityDeletionCandidates × List String) → Prop
  | .ok (result, orphans) =>
    (∀ path, path ∈ result.paths ↔ path ∈ expiredFiles contents before after ∧
        path ∉ retainedFiles contents after) ∧
      (∀ path, path ∈ orphans ↔ path ∈ listed ∧ path ∉ retainedFiles contents after ∧
        path ∉ result.paths) ∧
      result.paths.Nodup ∧ result.total = result.paths.length
  | .error (.error error) =>
    (∃ path, path ∉ retainedFiles contents after ∧
        (path ∈ expiredFiles contents before after ∨ path ∈ listed) ∧
        root.ensurePath path = .error error) ∨
      Stop.error error = overflow ∧ ∃ paths : List String, paths.Nodup ∧ 2 ^ 64 ≤ paths.length ∧
        ∀ path ∈ paths, path ∈ expiredFiles contents before after ∧
          path ∉ retainedFiles contents after
  | .error (.panicked _) => False

variable {cs : Contents} {b after : Table} {root : ManagedTableRoot} {ls : List String}

variable (root) in
lemma validate_cases (ps : List String) : validateOwnedCandidates root ps = .ok () ∨
      ∃ path ∈ ps, ∃ error, root.ensurePath path = .error error ∧
        validateOwnedCandidates root ps = .error (.error error) := by
  rcases forM_cases (fun path => returned (root.ensurePath path)) ps with
    ⟨hr, -⟩ | ⟨path, hp, stop, hc, hr⟩
  · exact .inl hr
  · right
    cases he : root.ensurePath path with
    | ok v =>
      rw [he] at hc
      cases hc
    | error error =>
      rw [he] at hc
      obtain rfl := Except.error.inj hc
      exact ⟨path, hp, error, he, hr⟩

/-- The last part, given what the subtraction has left over. -/
lemma finishCandidates_exact (s : Sweep)
    (hc : ∀ path, path ∈ s.candidates ∧ path ∉ metadataFiles after ↔
      path ∈ expiredFiles cs b after ∧ path ∉ retainedFiles cs after)
    (ho : ∀ path, path ∈ s.orphanCandidates ∧ path ∉ metadataFiles after ↔
      path ∈ ls ∧ path ∉ retainedFiles cs after) :
    CleanupExact cs b after root ls (finishCandidates after root s) := by
  unfold finishCandidates
  set candidates := (metadataFiles after).foldl (fun map path => map.erase path) s.candidates
    with hma
  set orphans := (metadataFiles after).foldl removePath s.orphanCandidates with hli
  dsimp only
  have hk : ∀ path, path ∈ candidates.keys ↔ path ∈ expiredFiles cs b after ∧
      path ∉ retainedFiles cs after := by
    intro path
    rw [← AList.mem_keys, hma, mem_foldl_erase, hc]
  have hlef : ∀ path, path ∈ orphans ↔ path ∈ ls ∧ path ∉ retainedFiles cs after := by
    intro path
    rw [hli, mem_foldl_removePath, ho]
  have hl : (candidates.entries.map (·.2)).length = candidates.keys.length := by
    simp [AList.keys, List.keys]
  rcases validate_cases root candidates.keys with
    hv | ⟨path, hp, error, he, hv⟩
  swap
  · rw [hv]
    exact .inl ⟨path, ((hk path).mp hp).2, .inl ((hk path).mp hp).1, he⟩
  rcases validate_cases root orphans with
    hv' | ⟨path, hp, error, he, hv'⟩
  swap
  · rw [bind_ok hv, hv']
    exact .inl ⟨path, ((hlef path).mp hp).2, .inr ((hlef path).mp hp).1, he⟩
  rw [bind_ok hv, bind_ok hv']
  rcases count_cases (candidates.entries.map (·.2)) ⟨[], 0, 0, 0, 0, 0, 0⟩ with
    ⟨result, hco, ht⟩ | ⟨hco, hm⟩
  · rw [bind_ok hco]
    refine ⟨hk, fun path => ?_, candidates.keys_nodup, ?_⟩
    · rw [mem_filter, hlef path]
      simp [and_assoc]
    · change result.total = candidates.keys.length
      rw [ht, hl]
      simp [total]
  · rw [hco]
    refine .inr ⟨rfl, candidates.keys, candidates.keys_nodup, ?_, fun path => (hk path).mp⟩
    rw [← hl]
    simpa [total] using hm

theorem cleanupCandidates_exact (contents : Contents) (before after : Table)
    (orphanOlderThanMs : Option ℤ) (root : ManagedTableRoot) (listed : List String)
    (hbefore : TrueContents contents before.fileIo) (hafter : TrueContents contents after.fileIo)
    (hdisjoint : PathsDisjoint contents before after)
    (hlisted : orphanListing after orphanOlderThanMs = .ok listed) :
    CleanupExact contents before after root listed
      (cleanupCandidates .default before after orphanOlderThanMs root) := by
  obtain ⟨e, hse, hfirst, hme⟩ := seeding_spec after hbefore
  set first := seedMetadata before after e.2 with hfirst_def
  set orphans := (metadataFiles after).foldl removePath listed with horphans_def
  have hst : Swept first orphans (retainedFiles contents after)
      ⟨first, countKind (·.isSnapshotObject) first, countKind (·.isStatistics) first, orphans⟩ :=
    ⟨fun _ _ h => h, fun _ h hnot => absurd h hnot, rfl, rfl, fun _ h => h,
      fun _ h hnot => absurd h hnot⟩
  obtain ⟨r, hru, hsw, -, hal⟩ := subtractRetained_spec hafter hfirst hdisjoint
    after.metadata.snapshots (fun _ h => h) ⟨[], []⟩ _ hst (by constructor <;> simp)
  have hg : ∀ path, path ∈ retainedFiles contents after → path ∉ metadataFiles after →
      Gone r.2 path := by
    rintro path (⟨s, hs, hp⟩ | ⟨s, hs, hp⟩ | hm) hnot
    · exact (hal s hs).1 path hp
    · exact (hal s hs).2 path hp
    · exact absurd hm hnot
  have hexa : cleanupCandidates .default before after orphanOlderThanMs root =
      finishCandidates after root r.2 := by
    unfold cleanupCandidates
    simp only [IcebergReachabilityPlanner.default, bind_ok hse, hlisted, returned]
    rw [bind_ok rfl, ← hfirst_def, ← horphans_def, bind_ok hru]
  rw [hexa]
  refine finishCandidates_exact r.2 (fun path => ⟨?_, ?_⟩) (fun path => ⟨?_, ?_⟩)
  · rintro ⟨hc, hm⟩
    obtain ⟨kind, hk⟩ := Option.isSome_iff_exists.mp (lookup_isSome.mpr hc)
    refine ⟨(hfirst path kind (hsw.candidates path kind hk)).expired, fun hr => ?_⟩
    exact (hg path hr hm).1 hc
  · rintro ⟨he, hr⟩
    refine ⟨?_, fun hm => hr (.inr (.inr hm))⟩
    by_contra ha
    exact hr (hsw.removed path ((hme path).mpr he) ha)
  · rintro ⟨ho, hm⟩
    have hlisted' := (mem_foldl_removePath _ _ _).mp (hsw.orphans path ho)
    exact ⟨hlisted'.1, fun hr => (hg path hr hm).2 ho⟩
  · rintro ⟨hlisted', hr⟩
    have hm : path ∉ metadataFiles after := fun h => hr (.inr (.inr h))
    refine ⟨?_, hm⟩
    by_contra ha
    exact hr (hsw.orphansRemoved path ((mem_foldl_removePath _ _ _).mpr ⟨hlisted', hm⟩) ha)

end Result

/-! ## Two snapshots that share a manifest -/

/-- The first snapshot lists `t/a` and `t/b`, the second one `t/b` alone. -/
def sharedContents : Contents where
  manifestFiles list :=
    if list = "t/l1" then [⟨"t/a", .data⟩, ⟨"t/b", .data⟩]
    else if list = "t/l2" then [⟨"t/b", .data⟩] else []
  entries manifest :=
    if manifest = "t/a" then [⟨"t/f1", true⟩]
    else if manifest = "t/b" then [⟨"t/f2", true⟩, ⟨"t/f3", false⟩] else []

def sharedIo : FileIO where
  readManifestList path := .ok (sharedContents.manifestFiles path)
  readManifest path := .ok (sharedContents.entries path)
  storage := .localStorage fun _ _ => .ok ["t/f2", "t/x"]

def sharedBefore : Table where
  metadataLocation := some "t/m1"
  metadata := ⟨"t", [⟨1, "t/l1"⟩, ⟨2, "t/l2"⟩], ["t/m0"],
    fun id => if id = 1 then some "t/s1" else none, fun _ => none⟩
  fileIo := sharedIo

def sharedAfter : Table where
  metadataLocation := some "t/m2"
  metadata := ⟨"t", [⟨2, "t/l2"⟩], ["t/m1"], fun _ => none, fun _ => none⟩
  fileIo := sharedIo

lemma sharedContents_true : TrueContents sharedContents sharedIo := ⟨fun _ => rfl, fun _ => rfl⟩

lemma shared_objects {path : String} (h : path ∈ snapshotObjects sharedContents
      (sharedBefore.metadata.snapshots ++ sharedAfter.metadata.snapshots)) :
    path ∈ ["t/l1", "t/a", "t/f1", "t/b", "t/f2", "t/l2"] := by
  simp [snapshotObjects, listObjects, liveFiles, sharedContents, sharedBefore, sharedAfter] at h
  rcases h with h | h
  · rcases h with rfl | h | h
    · decide
    · rcases h with rfl | rfl <;> decide
    · rcases h with rfl | rfl <;> decide
  · rcases h with rfl | rfl | rfl <;> decide

lemma shared_statistics {path : String}
    (h : path ∈ statisticsFiles sharedBefore.metadata sharedBefore.metadata.snapshots ∨
      path ∈ statisticsFiles sharedAfter.metadata sharedAfter.metadata.snapshots) :
    path = "t/s1" := by
  simpa [statisticsFiles, statisticsPaths, sharedBefore, sharedAfter] using h

lemma shared_disjoint : PathsDisjoint sharedContents sharedBefore sharedAfter where
  objects_statistics path h := by
    have ho := shared_objects h
    refine ⟨fun hs => ?_, fun hs => ?_⟩
    · rw [shared_statistics (.inl hs)] at ho
      revert ho
      decide
    · rw [shared_statistics (.inr hs)] at ho
      revert ho
      decide
  objects_metadata path h := by
    have ho := shared_objects h
    clear h
    revert path
    decide
  statistics_metadata path h := by
    rw [shared_statistics h]
    decide

theorem shared_cleanup_exact :
    (cleanupCandidates .default sharedBefore sharedAfter (some 0) ⟨"t", "t/"⟩).toOption.map
        (fun result => (result.1.paths, result.2)) =
          some (["t/m0", "t/s1", "t/f1", "t/a", "t/l1"], ["t/x"]) ∧
      CleanupExact sharedContents sharedBefore sharedAfter ⟨"t", "t/"⟩ ["t/f2", "t/x"]
        (cleanupCandidates .default sharedBefore sharedAfter (some 0) ⟨"t", "t/"⟩) :=
  ⟨by decide +kernel, cleanupCandidates_exact sharedContents sharedBefore sharedAfter (some 0)
    ⟨"t", "t/"⟩ ["t/f2", "t/x"] sharedContents_true sharedContents_true shared_disjoint rfl⟩

end LagoDB.Reachability
