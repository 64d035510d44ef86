import OneBeat.Plugin.Scanner

/-!
# A committed scan

After a full scan, are the rows of the cache the rows that the scan settled?

* `reuse_eq`, `settle_path`, `keyed_settle` : what a bundle is settled with;
* `mem_commit_of_replaced` : what a committed scan leaves in the cache;
* `authoritative_iff` : **the cache has exactly the settled rows when every row of an earlier version
  of a bundle is replaced**;
* `not_authoritative_shrunkBundle` : a bundle that has lost a plug-in.
-/

namespace OneBeat.Scan

variable {Info : Type} {probe : ScanProbe Info} {now : BundleRef → ℕ → ℤ}
  {rows baseline : List (PluginDescriptor Info)} {row : PluginDescriptor Info} {bundle : BundleRef}

/-! ### One bundle -/

/-- All rows of the bundle as it is now are reused, unless the probe can tell more of one. -/
theorem reuse_eq (wanted : UInt32) (bundle : BundleRef) (rows probed : List (PluginDescriptor Info)) :
    reuse wanted bundle rows probed =
      if rows.any fun row => fresh bundle row && outgrown wanted row then []
      else probed ++ rows.filter (fresh bundle) := by
  induction rows generalizing probed with
  | nil => simp [reuse]
  | cons cached rest ih =>
    unfold reuse
    cases hfresh : fresh bundle cached with
    | false => simp [hfresh, ih]
    | true =>
      cases houtgrown : outgrown wanted cached with
      | true => simp [hfresh, houtgrown]
      | false => simp [hfresh, houtgrown, ih]

/-- The bundle is reused: it could be read, it has rows, and the probe cannot tell more. -/
def reuses (probe : ScanProbe Info) (baseline : List (PluginDescriptor Info)) (bundle : BundleRef) :
    Bool :=
  bundle.fingerprint.valid &&
    !(baseline.any fun row => fresh bundle row && outgrown probe.capabilities row) &&
    baseline.any (fresh bundle)

/-- The indices that the probe reports. -/
def probedIndices (probe : ScanProbe Info) (bundle : BundleRef) : List UInt16 :=
  match probe.probe bundle with
  | [] => [0]
  | rows => rows.map PluginDescriptor.indexInBundle

variable [Inhabited Info]

theorem settle_of_reuses (h : reuses probe baseline bundle = true) (retrySeed : UInt8) :
    settle probe now baseline retrySeed bundle = (baseline.filter (fresh bundle), true) := by
  simp only [reuses, Bool.and_eq_true, Bool.not_eq_true'] at h
  obtain ⟨⟨hvalid, hnone⟩, hany⟩ := h
  have hne : baseline.filter (fresh bundle) ≠ [] := by
    obtain ⟨row, hrow, hfresh⟩ := List.any_eq_true.1 hany
    exact List.ne_nil_of_mem (List.mem_filter.2 ⟨hrow, hfresh⟩)
  simp [settle, hvalid, reuse_eq, hnone, hne]

omit [Inhabited Info] in
theorem reused_eq_nil (h : reuses probe baseline bundle = false) :
    (if bundle.fingerprint.valid then reuse probe.capabilities bundle baseline [] else []) = [] := by
  rw [reuse_eq]
  cases hvalid : bundle.fingerprint.valid with
  | false => rfl
  | true =>
    cases hany : baseline.any fun row => fresh bundle row && outgrown probe.capabilities row with
    | true => simp
    | false =>
      simpa [reuses, hvalid, hany] using h

/-- The rows of a bundle that is probed. -/
theorem settle_of_not_reuses (h : reuses probe baseline bundle = false) (retrySeed : UInt8) :
    (settle probe now baseline retrySeed bundle).1 =
      match probe.probe bundle with
      | [] => [emptyRow now bundle]
      | rows => rows.mapIdx (stamp now bundle retrySeed) := by
  have hnil := reused_eq_nil h
  simp only [settle, hnil, ne_eq, not_true_eq_false, if_false]
  cases probe.probe bundle <;> rfl

omit [Inhabited Info] in
theorem map_index_stamp (retrySeed : UInt8) (rows : List (PluginDescriptor Info)) :
    (rows.mapIdx (stamp now bundle retrySeed)).map PluginDescriptor.indexInBundle =
      rows.map PluginDescriptor.indexInBundle := by
  refine List.ext_getElem (by simp) ?_
  intro i hi hi'
  simp [stamp]

theorem map_index_settle_of_not_reuses (h : reuses probe baseline bundle = false)
    (now : BundleRef → ℕ → ℤ) (retrySeed : UInt8) :
    (settle probe now baseline retrySeed bundle).1.map PluginDescriptor.indexInBundle =
      probedIndices probe bundle := by
  rw [settle_of_not_reuses h, probedIndices]
  cases probe.probe bundle with
  | nil => rfl
  | cons row rows => exact map_index_stamp retrySeed (row :: rows)

omit [Inhabited Info] in
theorem storedPath_of_text (h : row.path.text = bundle.path) : row.path = bundle.storedPath := by
  rw [BundleRef.storedPath, ← h, FixedText.assign_text]

omit [Inhabited Info] in
theorem path_of_fresh (h : fresh bundle row = true) : row.path = bundle.storedPath := by
  simp only [fresh, Bool.and_eq_true, decide_eq_true_eq] at h
  exact storedPath_of_text h.1

/-- What is settled for a bundle is under its path. -/
theorem settle_path {retrySeed : UInt8}
    (hrow : row ∈ (settle probe now baseline retrySeed bundle).1) :
    row.path = bundle.storedPath := by
  cases hreuses : reuses probe baseline bundle with
  | true =>
    rw [settle_of_reuses hreuses] at hrow
    exact path_of_fresh (List.mem_filter.1 hrow).2
  | false =>
    rw [settle_of_not_reuses hreuses] at hrow
    split at hrow
    · obtain rfl := List.mem_singleton.1 hrow
      rfl
    · obtain ⟨i, _, rfl⟩ := List.mem_mapIdx.1 hrow
      rfl

omit [Inhabited Info] in
theorem nodup_probedIndices (probe : ScanProbe Info) (bundle : BundleRef) :
    (probedIndices probe bundle).Nodup := by
  unfold probedIndices
  split
  · exact List.nodup_singleton _
  · exact probe.distinct bundle

/-- What is settled for a bundle has one row a key. -/
theorem keyed_settle (hkeyed : KeyedRows.Keyed PluginDescriptor.key baseline) (retrySeed : UInt8) :
    KeyedRows.Keyed PluginDescriptor.key (settle probe now baseline retrySeed bundle).1 := by
  cases hreuses : reuses probe baseline bundle with
  | true =>
    rw [settle_of_reuses hreuses]
    exact hkeyed.filter _
  | false =>
    have hnodup := nodup_probedIndices probe bundle
    rw [← map_index_settle_of_not_reuses hreuses now retrySeed] at hnodup
    refine List.Nodup.of_map Prod.snd ?_
    rw [List.map_map]
    exact hnodup

/-! ### What is replaced -/

/-- The rows that the cache has of the bundle are replaced: when it is reused they are all of the
version on disk, when it is probed each has an index that the probe reports. -/
def Replaced (probe : ScanProbe Info) (cache : PluginCache Info) (bundle : BundleRef) : Prop :=
  ∀ row ∈ cache.entries, row.path.text = bundle.path →
    if reuses probe cache.entries bundle then row.fingerprint = bundle.fingerprint
    else row.indexInBundle ∈ probedIndices probe bundle

variable {cache : PluginCache Info}

theorem replaced_iff (now : BundleRef → ℕ → ℤ) : Replaced probe cache bundle ↔
    ∀ row ∈ cache.entries, row.path.text = bundle.path →
      row.key ∈ (settle probe now cache.entries 0 bundle).1.map PluginDescriptor.key := by
  refine forall_congr' fun row => forall_congr' fun hrow => forall_congr' fun htext => ?_
  cases hreuses : reuses probe cache.entries bundle with
  | true =>
    rw [settle_of_reuses hreuses]
    simp only [if_true]
    constructor
    · intro hprint
      exact List.mem_map_of_mem (List.mem_filter.2 ⟨hrow, by simp [fresh, htext, hprint]⟩)
    · intro hmem
      -- the row under the key is the row itself
      obtain ⟨other, hother, hkey⟩ := List.mem_map.1 hmem
      obtain ⟨hother, hfresh⟩ := List.mem_filter.1 hother
      obtain rfl := cache.keyed.eq_of_mem hother hrow hkey
      simp only [fresh, Bool.and_eq_true, decide_eq_true_eq] at hfresh
      exact hfresh.2
  | false =>
    simp only [Bool.false_eq_true, if_false]
    rw [← map_index_settle_of_not_reuses hreuses now 0]
    constructor
    · intro hmem
      obtain ⟨other, hother, hindex⟩ := List.mem_map.1 hmem
      refine List.mem_map.2 ⟨other, hother, ?_⟩
      rw [PluginDescriptor.key, PluginDescriptor.key, hindex, settle_path hother,
        storedPath_of_text htext]
    · intro hmem
      obtain ⟨other, hother, hkey⟩ := List.mem_map.1 hmem
      exact List.mem_map.2 ⟨other, hother, congrArg Prod.snd hkey⟩

/-! ### The whole scan -/

variable {scanner committed : PluginScanner Info} {bundles : List BundleRef} {cancelAfter : Option ℕ}

theorem probeBundles_cons (h : cancelAfter ≠ some 0) :
    scanner.probeBundles probe now (bundle :: bundles) cancelAfter =
      (scanner.settleBundle probe now bundle).probeBundles probe now bundles
        (cancelAfter.map (· - 1)) := by
  match cancelAfter with
  | none => rfl
  | some 0 => exact absurd rfl h
  | some (n + 1) => rfl

/-- A scan that runs to its end settles its bundles one after the other. -/
theorem probeBundles_of_complete
    (h : (scanner.probeBundles probe now bundles cancelAfter).progress.state = .complete) :
    scanner.probeBundles probe now bundles cancelAfter =
      let scanned := bundles.foldl (PluginScanner.settleBundle probe now) scanner
      { scanned with progress := { scanned.progress with state := .complete } } := by
  induction bundles generalizing scanner cancelAfter with
  | nil => rfl
  | cons bundle bundles ih =>
    have hgo : cancelAfter ≠ some 0 := by
      rintro rfl
      simp [PluginScanner.probeBundles] at h
    rw [probeBundles_cons hgo] at h ⊢
    exact ih h

theorem foldl_settleBundle :
    let scanned := bundles.foldl (PluginScanner.settleBundle probe now) scanner
    scanned.cache = scanner.cache ∧ scanned.pruneOnCommit = scanner.pruneOnCommit ∧
      scanned.livePaths = scanner.livePaths ++ bundles.map BundleRef.path ∧
      scanned.settled = scanner.settled ++ bundles.flatMap fun bundle =>
        (settle probe now scanner.baseline scanner.retrySeed bundle).1 := by
  induction bundles generalizing scanner with
  | nil => simp
  | cons bundle bundles ih =>
    obtain ⟨hcache, hprune, hlive, hsettled⟩ := @ih (scanner.settleBundle probe now bundle)
    refine ⟨hcache, hprune, ?_, ?_⟩
    · rw [List.foldl_cons, hlive]
      simp [PluginScanner.settleBundle]
    · rw [List.foldl_cons, hsettled]
      simp [PluginScanner.settleBundle]

/-- The rows that a full scan settles. -/
def settledRows (probe : ScanProbe Info) (now : BundleRef → ℕ → ℤ) (cache : PluginCache Info)
    (bundles : List BundleRef) : List (PluginDescriptor Info) :=
  bundles.flatMap fun bundle => (settle probe now cache.entries 0 bundle).1

theorem mem_settledRows : row ∈ settledRows probe now cache bundles ↔
    ∃ bundle ∈ bundles, row ∈ (settle probe now cache.entries 0 bundle).1 := by
  simp [settledRows]

theorem run_of_complete
    (h : (scanner.start.run probe now bundles cancelAfter).progress.state = .complete) :
    let scanned := scanner.start.run probe now bundles cancelAfter
    scanned.cache = scanner.cache ∧ scanned.pruneOnCommit = true ∧
      scanned.livePaths = bundles.map BundleRef.path ∧
      scanned.settled = settledRows probe now scanner.cache bundles := by
  unfold PluginScanner.run at h ⊢
  rw [probeBundles_of_complete h]
  exact foldl_settleBundle

/-- A full scan that is committed: the rows of the bundles found stay, and the settled ones are put
in. -/
theorem entries_commit
    (h : (scanner.start.run probe now bundles cancelAfter).commit = some committed) :
    committed.cache.entries =
      (settledRows probe now scanner.cache bundles).foldl (KeyedRows.upsert PluginDescriptor.key)
        (scanner.cache.retainOnly (bundles.map BundleRef.path)).1.entries := by
  simp only [PluginScanner.commit, Option.ite_none_right_eq_some, Option.some.injEq] at h
  obtain ⟨hcomplete, rfl⟩ := h
  obtain ⟨hcache, hprune, hlive, hsettled⟩ := run_of_complete hcomplete
  simp only [hcache, hprune, hlive, hsettled, if_true, PluginCache.entries_foldl_upsert]

/-- The cache has, for each bundle found, exactly what was settled for it, and nothing else. -/
def Authoritative (probe : ScanProbe Info) (now : BundleRef → ℕ → ℤ)
    (cache committed : PluginCache Info) (bundles : List BundleRef) : Prop :=
  (∀ bundle ∈ bundles, ∀ row, row ∈ committed.entries ∧ row.path = bundle.storedPath ↔
    row ∈ (settle probe now cache.entries 0 bundle).1) ∧
  ∀ row ∈ committed.entries, ∃ bundle ∈ bundles, row.path = bundle.storedPath

/-- Bundles whose paths are kept as the same text are settled alike. -/
def SettledAlike (probe : ScanProbe Info) (now : BundleRef → ℕ → ℤ) (cache : PluginCache Info)
    (bundles : List BundleRef) : Prop :=
  ∀ a ∈ bundles, ∀ b ∈ bundles, a.storedPath = b.storedPath → ∀ row,
    row ∈ (settle probe now cache.entries 0 a).1 → row ∈ (settle probe now cache.entries 0 b).1

/-- Then the settled rows have one row a key. -/
theorem SettledAlike.agree (h : SettledAlike probe now cache bundles) :
    ∀ a ∈ settledRows probe now cache bundles, ∀ b ∈ settledRows probe now cache bundles,
      a.key = b.key → a = b := by
  intro a ha b hb hkey
  obtain ⟨bundle, hbundle, ha⟩ := mem_settledRows.1 ha
  obtain ⟨bundle', hbundle', hb⟩ := mem_settledRows.1 hb
  have hpath : bundle.storedPath = bundle'.storedPath := by
    rw [← settle_path ha, ← settle_path hb]
    exact congrArg Prod.fst hkey
  exact (keyed_settle cache.keyed 0).eq_of_mem (h bundle hbundle bundle' hbundle' hpath a ha) hb hkey

omit [Inhabited Info] in
theorem mem_retainOnly_paths : row ∈ (cache.retainOnly (bundles.map BundleRef.path)).1.entries ↔
    row ∈ cache.entries ∧ ∃ bundle ∈ bundles, row.path.text = bundle.path := by
  rw [PluginCache.mem_retainOnly, List.mem_map]
  simp only [eq_comm]

theorem Authoritative.settledAlike {cache' : PluginCache Info}
    (h : Authoritative probe now cache cache' bundles) : SettledAlike probe now cache bundles := by
  intro a ha b hb hpath row hrow
  obtain ⟨hmem, hrowPath⟩ := (h.1 a ha row).2 hrow
  exact (h.1 b hb row).1 ⟨hmem, hrowPath.trans hpath⟩

/-- A row that is not replaced stays, and has not been settled. -/
theorem Authoritative.replaced
    (h : (scanner.start.run probe now bundles cancelAfter).commit = some committed)
    (hauth : Authoritative probe now scanner.cache committed.cache bundles)
    (hbundle : bundle ∈ bundles) : Replaced probe scanner.cache bundle := by
  refine (replaced_iff now).2 ?_
  intro row hrow htext
  have hpath := storedPath_of_text htext
  by_cases hkey : row.key ∈ (settledRows probe now scanner.cache bundles).map PluginDescriptor.key
  · -- it is settled for a bundle under the same text, hence for this one
    obtain ⟨other, hother, hkey⟩ := List.mem_map.1 hkey
    obtain ⟨bundle', hbundle', hother⟩ := mem_settledRows.1 hother
    have hpath' : bundle'.storedPath = bundle.storedPath := by
      rw [← settle_path hother, ← hpath]
      exact congrArg Prod.fst hkey
    have hin := hauth.settledAlike bundle' hbundle' bundle hbundle hpath' other hother
    exact List.mem_map.2 ⟨other, hin, hkey⟩
  · have hkept := mem_retainOnly_paths.2 ⟨hrow, bundle, hbundle, htext⟩
    have hmem : row ∈ committed.cache.entries := by
      rw [entries_commit h, KeyedRows.mem_foldl_upsert (PluginCache.keyed _)]
      exact .inr ⟨hkept, hkey⟩
    exact List.mem_map_of_mem ((hauth.1 bundle hbundle row).1 ⟨hmem, hpath⟩)

/-- When all rows are replaced the cache has the settled ones. -/
theorem mem_commit_of_replaced
    (h : (scanner.start.run probe now bundles cancelAfter).commit = some committed)
    (hreplaced : ∀ bundle ∈ bundles, Replaced probe scanner.cache bundle)
    (halike : SettledAlike probe now scanner.cache bundles) :
    row ∈ committed.cache.entries ↔ row ∈ settledRows probe now scanner.cache bundles := by
  rw [entries_commit h, KeyedRows.mem_foldl_upsert_of_agree (PluginCache.keyed _) halike.agree]
  refine or_iff_left ?_
  rintro ⟨hrow, hkey⟩
  obtain ⟨hrow, bundle, hbundle, htext⟩ := mem_retainOnly_paths.1 hrow
  obtain ⟨other, hother, heq⟩ :=
    List.mem_map.1 ((replaced_iff now).1 (hreplaced bundle hbundle) row hrow htext)
  exact hkey (List.mem_map.2 ⟨other, mem_settledRows.2 ⟨bundle, hbundle, hother⟩, heq⟩)

/-- **A committed scan is authoritative exactly when the rows that the cache had of a bundle are all
replaced**, and bundles that are kept under one text are settled alike. -/
theorem authoritative_iff
    (h : (scanner.start.run probe now bundles cancelAfter).commit = some committed) :
    Authoritative probe now scanner.cache committed.cache bundles ↔
      (∀ bundle ∈ bundles, Replaced probe scanner.cache bundle) ∧
        SettledAlike probe now scanner.cache bundles := by
  constructor
  · intro hauth
    exact ⟨fun bundle hbundle => hauth.replaced h hbundle, hauth.settledAlike⟩
  · rintro ⟨hreplaced, halike⟩
    simp only [Authoritative, mem_commit_of_replaced h hreplaced halike, mem_settledRows]
    constructor
    · intro bundle hbundle row
      constructor
      · rintro ⟨⟨bundle', hbundle', hrow⟩, hpath⟩
        have hpath' : bundle'.storedPath = bundle.storedPath := (settle_path hrow).symm.trans hpath
        exact halike bundle' hbundle' bundle hbundle hpath' row hrow
      · intro hrow
        exact ⟨⟨bundle, hbundle, hrow⟩, settle_path hrow⟩
    · rintro row ⟨bundle, hbundle, hrow⟩
      exact ⟨bundle, hbundle, settle_path hrow⟩

/-! ### A bundle that has lost a plug-in -/

/-- A bundle at `/A.clap`. -/
def bundleA (binarySize : ℕ) : BundleRef where
  path := [47, 65, 46, 99, 108, 97, 112]
  fingerprint := { binarySize }

/-- The cache after version 1, which had two plug-ins. -/
def versionOne : PluginScanner Unit where
  cache :=
    { entries := [0, 1].map fun indexInBundle =>
        { path := (bundleA 1).storedPath, fingerprint := (bundleA 1).fingerprint, format := .clap,
          indexInBundle, info := () }
      keyed := by decide }

/-- Each version has as many plug-ins as the function says. -/
def countProbe (count : BundleRef → Bool) : ScanProbe Unit where
  probe bundle :=
    if count bundle then [{ indexInBundle := 0, info := () }, { indexInBundle := 1, info := () }]
    else [{ indexInBundle := 0, info := () }]
  distinct := by
    intro bundle
    split <;> decide

/-- Version 2 still has both plug-ins. -/
theorem authoritative_iff_versionTwo :
    ∃ committed, (versionOne.start.run (countProbe fun _ => true) (fun _ _ => 5)
        [bundleA 2] none).commit = some committed ∧
      Authoritative (countProbe fun _ => true) (fun _ _ => 5) versionOne.cache committed.cache
        [bundleA 2] := by
  have h : (versionOne.start.run (countProbe fun _ => true) (fun _ _ => 5)
      [bundleA 2] none).commit = some _ := rfl
  refine ⟨_, h, (authoritative_iff h).2 ⟨?_, ?_⟩⟩
  · unfold Replaced
    decide
  · intro a ha b hb _ row hrow
    rw [List.mem_singleton.1 hb, ← List.mem_singleton.1 ha]
    exact hrow

/-- Version 2 has one plug-in, and the row of the other stays. -/
theorem not_authoritative_shrunkBundle :
    ∃ committed, (versionOne.start.run (countProbe fun _ => false) (fun _ _ => 5)
        [bundleA 2] none).commit = some committed ∧
      ¬ Authoritative (countProbe fun _ => false) (fun _ _ => 5) versionOne.cache committed.cache
        [bundleA 2] := by
  refine ⟨_, rfl, ?_⟩
  intro hauth
  have hstale := (hauth.1 (bundleA 2) (by decide) versionOne.cache.entries[1]).1 (by decide)
  revert hstale
  decide

end OneBeat.Scan
