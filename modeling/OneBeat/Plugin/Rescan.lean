import OneBeat.Plugin.CommittedScan

/-!
# Scanning again

A full scan is committed, and another one runs over the same bundles, with a probe that can tell as
much.  Does it have to probe?

**Main theorem** (`restsAfter_iff`): it probes nothing, and leaves the rows as they are, exactly when
every bundle was reused the first time already, or could be read, has a path that fits into a row,
yielded rows that know what the probe can tell, and left no row behind that knows less
(`Settles`).  A bundle that yields nothing is probed at every start (`not_restsAfter_notAPlugin`).
-/

namespace OneBeat.Scan

variable {Info : Type} {probe again : ScanProbe Info} {now : BundleRef → ℕ → ℤ}
  {row : PluginDescriptor Info} {bundle : BundleRef} {bundles : List BundleRef}
  {cache : PluginCache Info} {cancelAfter : Option ℕ}

/-- A path has one bundle. -/
def OnePerPath (bundles : List BundleRef) : Prop :=
  ∀ a ∈ bundles, ∀ b ∈ bundles, a.path = b.path → a = b

/-- The path is not cut when a row keeps it. -/
def BundleRef.Fits (bundle : BundleRef) : Prop := bundle.path.length < 512

theorem BundleRef.Fits.storedPath_text (h : bundle.Fits) : bundle.storedPath.text = bundle.path :=
  List.take_of_length_le (Nat.le_pred_of_lt h)

theorem fits_of_fresh (h : fresh bundle row = true) : bundle.Fits := by
  simp only [fresh, Bool.and_eq_true, decide_eq_true_eq] at h
  rw [BundleRef.Fits, ← h.1]
  exact row.path.fits

theorem fits_of_reuses {rows : List (PluginDescriptor Info)}
    (h : reuses probe rows bundle = true) : bundle.Fits := by
  simp only [reuses, Bool.and_eq_true, List.any_eq_true] at h
  obtain ⟨-, row, -, hfresh⟩ := h
  exact fits_of_fresh hfresh

theorem reuses_iff {rows : List (PluginDescriptor Info)} : reuses probe rows bundle = true ↔
    bundle.fingerprint.valid = true ∧
      (∀ row ∈ rows, fresh bundle row = true → outgrown probe.capabilities row = false) ∧
      ∃ row ∈ rows, fresh bundle row = true := by
  simp only [reuses, Bool.and_eq_true, Bool.not_eq_true', List.any_eq_true, List.any_eq_false,
    not_and, Bool.not_eq_true, and_assoc]

/-- Of the probe only its capabilities count. -/
theorem reuses_congr (h : again.capabilities = probe.capabilities)
    (rows : List (PluginDescriptor Info)) (bundle : BundleRef) :
    reuses again rows bundle = reuses probe rows bundle := by
  rw [reuses, reuses, h]

variable [Inhabited Info] {scanner committed : PluginScanner Info}

/-! ### What is probed -/

theorem settle_snd (baseline : List (PluginDescriptor Info)) (retrySeed : UInt8)
    (bundle : BundleRef) :
    (settle probe now baseline retrySeed bundle).2 = reuses probe baseline bundle := by
  cases hreuses : reuses probe baseline bundle with
  | true => rw [settle_of_reuses hreuses]
  | false =>
    simp only [settle, reused_eq_nil hreuses, ne_eq, not_true_eq_false, if_false]
    cases probe.probe bundle <;> rfl

theorem bundlesProbed_probeBundles :
    (scanner.probeBundles probe now bundles none).progress.bundlesProbed =
      scanner.progress.bundlesProbed +
        bundles.countP fun bundle => !reuses probe scanner.baseline bundle := by
  induction bundles generalizing scanner with
  | nil => rfl
  | cons bundle bundles ih =>
    rw [probeBundles_cons (by simp), Option.map_none, ih, List.countP_cons]
    simp only [PluginScanner.settleBundle, settle_snd]
    cases reuses probe scanner.baseline bundle <;> simp [Nat.add_assoc, Nat.add_comm]

/-- A full scan launches no probe exactly when it reuses every bundle. -/
theorem bundlesProbed_eq_zero_iff :
    (scanner.start.run probe now bundles none).progress.bundlesProbed = 0 ↔
      ∀ bundle ∈ bundles, reuses probe scanner.cache.entries bundle = true := by
  rw [PluginScanner.run, bundlesProbed_probeBundles]
  simp [PluginScanner.start, List.countP_eq_zero]

/-! ### What the first scan leaves -/

/-- Bundles whose paths fit are settled apart. -/
theorem settledAlike_of_fits (honce : OnePerPath bundles) (hfits : ∀ bundle ∈ bundles, bundle.Fits) :
    SettledAlike probe now cache bundles := by
  intro a ha b hb hpath row hrow
  have htext := congrArg FixedText.text hpath
  rw [(hfits a ha).storedPath_text, (hfits b hb).storedPath_text] at htext
  exact honce a ha b hb htext ▸ hrow

/-- The rows under the path of a bundle are those that were settled for it, and those that were left
under other indices. -/
theorem mem_commit_iff
    (h : (scanner.start.run probe now bundles cancelAfter).commit = some committed)
    (honce : OnePerPath bundles) (hfits : ∀ bundle ∈ bundles, bundle.Fits) (hbundle : bundle ∈ bundles)
    (htext : row.path.text = bundle.path) :
    row ∈ committed.cache.entries ↔
      row ∈ (settle probe now scanner.cache.entries 0 bundle).1 ∨
        row ∈ scanner.cache.entries ∧ row.indexInBundle ∉
          (settle probe now scanner.cache.entries 0 bundle).1.map PluginDescriptor.indexInBundle := by
  have hpath := storedPath_of_text htext
  -- what is settled under the path is settled for the bundle
  have hown : ∀ other ∈ settledRows probe now scanner.cache bundles, other.path = row.path →
      other ∈ (settle probe now scanner.cache.entries 0 bundle).1 := by
    intro other hother hsame
    obtain ⟨bundle', hbundle', hother⟩ := mem_settledRows.1 hother
    have hstored : bundle'.storedPath = bundle.storedPath := by
      rw [← settle_path hother, hsame, hpath]
    exact settledAlike_of_fits honce hfits bundle' hbundle' bundle hbundle hstored other hother
  have hkey : row.key ∈ (settledRows probe now scanner.cache bundles).map PluginDescriptor.key ↔
      row.indexInBundle ∈
        (settle probe now scanner.cache.entries 0 bundle).1.map PluginDescriptor.indexInBundle := by
    constructor
    · intro hmem
      obtain ⟨other, hother, hkey⟩ := List.mem_map.1 hmem
      exact List.mem_map.2 ⟨other, hown other hother (congrArg Prod.fst hkey), congrArg Prod.snd hkey⟩
    · intro hmem
      obtain ⟨other, hother, hindex⟩ := List.mem_map.1 hmem
      refine List.mem_map.2 ⟨other, mem_settledRows.2 ⟨bundle, hbundle, hother⟩, ?_⟩
      rw [PluginDescriptor.key, PluginDescriptor.key, hindex, settle_path hother, hpath]
  rw [entries_commit h, KeyedRows.mem_foldl_upsert_of_agree (PluginCache.keyed _)
    (settledAlike_of_fits honce hfits).agree, hkey]
  refine or_congr ?_ (and_congr_left' ?_)
  · exact ⟨fun hrow => hown row hrow rfl, fun hrow => mem_settledRows.2 ⟨bundle, hbundle, hrow⟩⟩
  · rw [mem_retainOnly_paths]
    exact and_iff_left ⟨bundle, hbundle, htext⟩

/-! ### The condition -/

/-- The rows of a probe know what it can tell. -/
def Knowing (probe : ScanProbe Info) (bundle : BundleRef) : Prop :=
  (probe.probe bundle = [] → probe.capabilities = 0) ∧
    ∀ row ∈ probe.probe bundle, outgrown probe.capabilities row = false

/-- The next scan will have nothing to ask about the bundle: it is reused already, or what the probe
reports of it will do, and takes the place of what will not. -/
def Settles (probe : ScanProbe Info) (cache : PluginCache Info) (bundle : BundleRef) : Prop :=
  reuses probe cache.entries bundle = true ∨
    bundle.fingerprint.valid = true ∧ bundle.Fits ∧ Knowing probe bundle ∧
      ∀ row ∈ cache.entries, fresh bundle row = true → outgrown probe.capabilities row = true →
        row.indexInBundle ∈ probedIndices probe bundle

omit [Inhabited Info] in
theorem Settles.fits (h : Settles probe cache bundle) : bundle.Fits := by
  rcases h with hreuses | ⟨-, hfits, -⟩
  · exact fits_of_reuses hreuses
  · exact hfits

theorem outgrown_emptyRow (wanted : UInt32) (bundle : BundleRef) :
    outgrown wanted (emptyRow now bundle : PluginDescriptor Info) = decide (wanted ≠ 0) := by
  have hflags : outgrown wanted (emptyRow now bundle : PluginDescriptor Info) =
    decide ((0 : UInt32) &&& wanted ≠ wanted) := rfl
  rw [hflags, UInt32.zero_and]
  exact decide_eq_decide.2 ne_comm

theorem outgrown_settle_iff (now : BundleRef → ℕ → ℤ) (h : reuses probe cache.entries bundle = false) :
    (∀ row ∈ (settle probe now cache.entries 0 bundle).1, outgrown probe.capabilities row = false) ↔
      Knowing probe bundle := by
  rw [settle_of_not_reuses h, Knowing]
  cases hprobe : probe.probe bundle with
  | nil => simp [outgrown_emptyRow]
  | cons first rest =>
    simp only [reduceCtorEq, false_implies, true_and]
    -- a stamp changes neither the outcome nor the flags
    constructor
    · intro hall row hrow
      obtain ⟨i, hi, rfl⟩ := List.mem_iff_getElem.1 hrow
      exact hall (stamp now bundle 0 i (first :: rest)[i]) (List.mem_mapIdx.2 ⟨i, hi, rfl⟩)
    · intro hall row hrow
      obtain ⟨i, hi, rfl⟩ := List.mem_mapIdx.1 hrow
      have hknows := hall (first :: rest)[i] (List.getElem_mem hi)
      exact hknows

/-- What a probe settles is of the bundle as it is now. -/
theorem fresh_settle (h : reuses probe cache.entries bundle = false) (hfits : bundle.Fits)
    (hrow : row ∈ (settle probe now cache.entries 0 bundle).1) : fresh bundle row = true := by
  have htext : row.path.text = bundle.path := settle_path hrow ▸ hfits.storedPath_text
  have hprint : row.fingerprint = bundle.fingerprint := by
    rw [settle_of_not_reuses h] at hrow
    split at hrow
    · rw [List.mem_singleton.1 hrow, emptyRow]
    · obtain ⟨i, _, rfl⟩ := List.mem_mapIdx.1 hrow
      rfl
  rw [fresh, htext, hprint, decide_eq_true rfl, decide_eq_true rfl, Bool.and_self]

theorem settle_ne_nil (now : BundleRef → ℕ → ℤ) (h : reuses probe cache.entries bundle = false) :
    (settle probe now cache.entries 0 bundle).1 ≠ [] := by
  rw [settle_of_not_reuses h]
  cases probe.probe bundle with
  | nil => exact List.cons_ne_nil _ _
  | cons first rest => simp

/-- **A bundle is reused the next time exactly when it settles.** -/
theorem reuses_commit_iff
    (h : (scanner.start.run probe now bundles cancelAfter).commit = some committed)
    (honce : OnePerPath bundles) (hfits : ∀ bundle ∈ bundles, bundle.Fits)
    (hbundle : bundle ∈ bundles) :
    reuses probe committed.cache.entries bundle = true ↔ Settles probe scanner.cache bundle := by
  have hmem : ∀ row, fresh bundle row = true → (row ∈ committed.cache.entries ↔
      row ∈ (settle probe now scanner.cache.entries 0 bundle).1 ∨
        row ∈ scanner.cache.entries ∧ row.indexInBundle ∉
          (settle probe now scanner.cache.entries 0 bundle).1.map PluginDescriptor.indexInBundle) := by
    intro row hfresh
    simp only [fresh, Bool.and_eq_true, decide_eq_true_eq] at hfresh
    exact mem_commit_iff h honce hfits hbundle hfresh.1
  cases hreuses : reuses probe scanner.cache.entries bundle with
  | true =>
    refine iff_of_true ?_ (.inl hreuses)
    rw [settle_of_reuses hreuses] at hmem
    obtain ⟨hvalid, hknows, row, hrow, hfresh⟩ := reuses_iff.1 hreuses
    refine reuses_iff.2 ⟨hvalid, fun row hrow hfresh => ?_, row, ?_, hfresh⟩
    · rcases (hmem row hfresh).1 hrow with hrow | ⟨hrow, -⟩
      · exact hknows row (List.mem_filter.1 hrow).1 hfresh
      · exact hknows row hrow hfresh
    · exact (hmem row hfresh).2 (.inl (List.mem_filter.2 ⟨hrow, hfresh⟩))
  | false =>
    have hindices := map_index_settle_of_not_reuses hreuses now 0
    rw [Settles, hreuses, or_iff_right Bool.false_ne_true, reuses_iff,
      ← outgrown_settle_iff now hreuses, ← hindices]
    constructor
    · rintro ⟨hvalid, hknows, -⟩
      refine ⟨hvalid, hfits bundle hbundle, fun row hrow => ?_, fun row hrow hfresh hout => ?_⟩
      · have hfresh := fresh_settle hreuses (hfits bundle hbundle) hrow
        exact hknows row ((hmem row hfresh).2 (.inl hrow)) hfresh
      · by_contra hleft
        rw [hknows row ((hmem row hfresh).2 (.inr ⟨hrow, hleft⟩)) hfresh] at hout
        cases hout
    · rintro ⟨hvalid, -, hsettled, hreplaced⟩
      obtain ⟨row, hrow⟩ := List.exists_mem_of_ne_nil _ (settle_ne_nil now hreuses)
      have hfresh := fresh_settle hreuses (hfits bundle hbundle) hrow
      refine ⟨hvalid, fun row hrow hfresh => ?_, row, (hmem row hfresh).2 (.inl hrow), hfresh⟩
      rcases (hmem row hfresh).1 hrow with hrow | ⟨hrow, hleft⟩
      · exact hsettled row hrow
      · exact Bool.eq_false_iff.2 fun hout => hleft (hreplaced row hrow hfresh hout)

/-! ### The second scan -/

/-- A second full scan over the bundles, whatever its probe would report now, launches no probe and
leaves the rows as they are. -/
def RestsAfter (capabilities : UInt32) (committed : PluginScanner Info) (bundles : List BundleRef) :
    Prop :=
  ∀ (again : ScanProbe Info) (now : BundleRef → ℕ → ℤ) (found : List BundleRef),
    again.capabilities = capabilities → (∀ bundle, bundle ∈ found ↔ bundle ∈ bundles) →
      (committed.start.run again now found none).progress.bundlesProbed = 0 ∧
        ∃ rested, (committed.start.run again now found none).commit = some rested ∧
          rested.cache.entries = committed.cache.entries

/-- A scan that reuses every bundle puts in what is there. -/
theorem entries_commit_of_reuses {rested : PluginScanner Info}
    (hrested : (committed.start.run again now bundles cancelAfter).commit = some rested)
    (hall : ∀ bundle ∈ bundles, reuses again committed.cache.entries bundle = true)
    (hpaths : ∀ row ∈ committed.cache.entries, ∃ bundle ∈ bundles, row.path.text = bundle.path) :
    rested.cache.entries = committed.cache.entries := by
  have hretained : (committed.cache.retainOnly (bundles.map BundleRef.path)).1.entries =
      committed.cache.entries := by
    refine List.filter_eq_self.2 fun row hrow => decide_eq_true ?_
    obtain ⟨bundle, hbundle, htext⟩ := hpaths row hrow
    exact List.mem_map.2 ⟨bundle, hbundle, htext.symm⟩
  rw [entries_commit hrested, hretained]
  refine KeyedRows.foldl_upsert_of_forall_mem committed.cache.keyed fun row hrow => ?_
  obtain ⟨bundle, hbundle, hrow⟩ := mem_settledRows.1 hrow
  rw [settle_of_reuses (hall bundle hbundle)] at hrow
  exact (List.mem_filter.1 hrow).1

theorem paths_commit
    (h : (scanner.start.run probe now bundles cancelAfter).commit = some committed)
    (hfits : ∀ bundle ∈ bundles, bundle.Fits) :
    ∀ row ∈ committed.cache.entries, ∃ bundle ∈ bundles, row.path.text = bundle.path := by
  intro row hrow
  rw [entries_commit h, KeyedRows.mem_foldl_upsert (PluginCache.keyed _)] at hrow
  rcases hrow with hlast | ⟨hrow, -⟩
  · have hsettled := (List.mem_filter.1 (List.mem_of_mem_getLast? hlast)).1
    obtain ⟨bundle, hbundle, hsettled⟩ := mem_settledRows.1 hsettled
    exact ⟨bundle, hbundle, settle_path hsettled ▸ (hfits bundle hbundle).storedPath_text⟩
  · exact (mem_retainOnly_paths.1 hrow).2

theorem exists_commit (probe : ScanProbe Info) (now : BundleRef → ℕ → ℤ)
    (scanner : PluginScanner Info) (bundles : List BundleRef) :
    ∃ committed, (scanner.start.run probe now bundles none).commit = some committed := by
  have hcomplete : ∀ (bundles : List BundleRef) (scanner : PluginScanner Info),
      (scanner.probeBundles probe now bundles none).progress.state = .complete := by
    intro bundles
    induction bundles with
    | nil => exact fun _ => rfl
    | cons bundle bundles ih => exact fun scanner => ih (scanner.settleBundle probe now bundle)
  exact ⟨_, if_pos (hcomplete bundles _)⟩

/-- **A second scan rests exactly when every bundle settles.** -/
theorem restsAfter_iff
    (h : (scanner.start.run probe now bundles cancelAfter).commit = some committed)
    (honce : OnePerPath bundles) :
    RestsAfter probe.capabilities committed bundles ↔
      ∀ bundle ∈ bundles, Settles probe scanner.cache bundle := by
  constructor
  · intro hrests
    have hall := bundlesProbed_eq_zero_iff.1 (hrests probe now bundles rfl fun _ => .rfl).1
    have hfits : ∀ bundle ∈ bundles, bundle.Fits := fun bundle hbundle =>
      fits_of_reuses (hall bundle hbundle)
    exact fun bundle hbundle => (reuses_commit_iff h honce hfits hbundle).1 (hall bundle hbundle)
  · intro hsettles again now' found hcapabilities hfound
    have hfits : ∀ bundle ∈ bundles, bundle.Fits := fun bundle hbundle => (hsettles bundle hbundle).fits
    have hall : ∀ bundle ∈ found, reuses again committed.cache.entries bundle = true := by
      intro bundle hbundle
      have hbundle := (hfound bundle).1 hbundle
      rw [reuses_congr hcapabilities]
      exact (reuses_commit_iff h honce hfits hbundle).2 (hsettles bundle hbundle)
    obtain ⟨rested, hrested⟩ := exists_commit again now' committed found
    refine ⟨bundlesProbed_eq_zero_iff.2 hall, rested, hrested, ?_⟩
    refine entries_commit_of_reuses hrested hall fun row hrow => ?_
    obtain ⟨bundle, hbundle, htext⟩ := paths_commit h hfits row hrow
    exact ⟨bundle, (hfound bundle).2 hbundle, htext⟩

/-! ### A bundle that is not a plug-in -/

/-- A probe that looks into the bundles, and reports of each what the function says. -/
def lookingProbe (isPlugin : BundleRef → Bool) : ScanProbe Unit where
  probe bundle := if isPlugin bundle then [{ flags := 1, info := () }] else []
  capabilities := 1
  distinct := by
    intro bundle
    split <;> decide

def noRows : PluginScanner Unit where
  cache := ⟨[], List.nodup_nil⟩

/-- What is remembered as no plug-in is probed again. -/
theorem not_restsAfter_notAPlugin :
    ∃ committed, (noRows.start.run (lookingProbe fun _ => false) (fun _ _ => 5)
        [bundleA 1] none).commit = some committed ∧
      ¬RestsAfter 1 committed [bundleA 1] := by
  refine ⟨_, rfl, fun hrests => ?_⟩
  have hnone := (hrests (lookingProbe fun _ => false) (fun _ _ => 6) [bundleA 1] rfl
    fun _ => .rfl).1
  revert hnone
  decide

theorem restsAfter_iff_plugin :
    ∃ committed, (noRows.start.run (lookingProbe fun _ => true) (fun _ _ => 5)
        [bundleA 1] none).commit = some committed ∧
      (RestsAfter (lookingProbe fun _ => true).capabilities committed [bundleA 1] ↔
        ∀ bundle ∈ [bundleA 1], Settles (lookingProbe fun _ => true) noRows.cache bundle) := by
  have h : (noRows.start.run (lookingProbe fun _ => true) (fun _ _ => 5)
      [bundleA 1] none).commit = some _ := rfl
  refine ⟨_, h, restsAfter_iff h fun a ha b hb _ => ?_⟩
  rw [List.mem_singleton.1 ha, List.mem_singleton.1 hb]

end OneBeat.Scan
