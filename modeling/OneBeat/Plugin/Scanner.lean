import OneBeat.Plugin.PluginCache

/-!
# The scanner

`plugin/scan/scanner.cpp`: every bundle that was found is reused from the cache or probed, and
`commit` writes what was settled into the cache.

The probe and the clock are parameters; a scan that is cancelled sees it before one of the bundles.
Walking the directories is not modelled: the bundles are given.
-/

namespace OneBeat.Scan

/-- A bundle on disk. -/
structure BundleRef where
  path : List UInt8
  format : PluginFormat := .clap
  fingerprint : BundleFingerprint := {}
  deriving DecidableEq

/-- The path as a row keeps it. -/
def BundleRef.storedPath (bundle : BundleRef) : PluginPath := .assign bundle.path

/-- What a bundle contains, under distinct indices; and the flags that the probe can establish. -/
structure ScanProbe (Info : Type) where
  probe : BundleRef → List (PluginDescriptor Info)
  capabilities : UInt32 := 0
  distinct : ∀ bundle, ((probe bundle).map PluginDescriptor.indexInBundle).Nodup

inductive ScanState
  | idle
  | discovering
  | probing
  | complete
  | cancelled
  deriving DecidableEq

structure ScanProgress where
  state : ScanState := .idle
  bundlesDiscovered : ℕ := 0
  bundlesReused : ℕ := 0
  bundlesProbed : ℕ := 0
  pluginsFound : ℕ := 0
  pluginsRemoved : ℕ := 0
  deriving DecidableEq

structure PluginScanner (Info : Type) where
  cache : PluginCache Info
  progress : ScanProgress := {}
  settled : List (PluginDescriptor Info) := []
  livePaths : List (List UInt8) := []
  baseline : List (PluginDescriptor Info) := []
  pruneOnCommit : Bool := true
  retrySeed : UInt8 := 0

variable {Info : Type}

/-! ### One bundle -/

/-- A cached row of the bundle as it is now. -/
def fresh (bundle : BundleRef) (cached : PluginDescriptor Info) : Bool :=
  cached.path.text = bundle.path && cached.fingerprint = bundle.fingerprint

/-- The row knows less than the probe could tell. -/
def outgrown (wanted : UInt32) (cached : PluginDescriptor Info) : Bool :=
  !cached.quarantined && cached.flags &&& wanted ≠ wanted

/-- The rows to reuse among the cached ones, after those collected so far. -/
def reuse (wanted : UInt32) (bundle : BundleRef) :
    List (PluginDescriptor Info) → List (PluginDescriptor Info) → List (PluginDescriptor Info)
  | [], probed => probed
  | cached :: rest, probed =>
    if !fresh bundle cached then reuse wanted bundle rest probed
    else if outgrown wanted cached then []
    else reuse wanted bundle rest (probed ++ [cached])

/-- The bytes after the last `/`. -/
def filename (path : List UInt8) : List UInt8 :=
  (path.reverse.takeWhile (· ≠ '/'.toUInt8)).reverse

/-- The name of the file without its extension. -/
def stem (path : List UInt8) : List UInt8 :=
  let name := filename path
  let dot := '.'.toUInt8
  if name = [dot, dot] then name
  else
    match name.reverse.dropWhile (· ≠ dot) with
    | _ :: first :: before => (first :: before).reverse
    | _ => name

variable (probe : ScanProbe Info) (now : BundleRef → ℕ → ℤ)

/-- A row of the probe is stamped; the clock may go on from row to row. -/
def stamp (bundle : BundleRef) (retrySeed : UInt8) (i : ℕ) (row : PluginDescriptor Info) :
    PluginDescriptor Info :=
  { row with
    path := bundle.storedPath
    format := bundle.format
    fingerprint := bundle.fingerprint
    scannedAtNanos := now bundle i
    retryCount := retrySeed }

/-- The row of a bundle that yielded nothing. -/
def emptyRow [Inhabited Info] (bundle : BundleRef) : PluginDescriptor Info where
  path := bundle.storedPath
  name := .assign (stem bundle.path)
  format := bundle.format
  outcome := .notAPlugin
  fingerprint := bundle.fingerprint
  scannedAtNanos := now bundle 0
  info := default

variable [Inhabited Info]

/-- The rows of a bundle, and whether they are reused. -/
def settle (baseline : List (PluginDescriptor Info)) (retrySeed : UInt8) (bundle : BundleRef) :
    List (PluginDescriptor Info) × Bool :=
  let reused := if bundle.fingerprint.valid then reuse probe.capabilities bundle baseline [] else []
  if reused ≠ [] then (reused, true)
  else
    match probe.probe bundle with
    | [] => ([emptyRow now bundle], false)
    | rows => (rows.mapIdx (stamp now bundle retrySeed), false)

/-! ### The scan -/

namespace PluginScanner

/-- A full scan begins. -/
def start (scanner : PluginScanner Info) : PluginScanner Info :=
  { scanner with
    progress := { state := .discovering }
    settled := []
    livePaths := []
    baseline := scanner.cache.entries
    pruneOnCommit := true
    retrySeed := 0 }

/-- The retries of the bundle so far, and one more. -/
def retryCount (rows : List (PluginDescriptor Info)) (path : List UInt8) : UInt8 :=
  let previous := rows.foldl
    (fun previous row => if row.path.text = path then max previous row.retryCount else previous) 0
  if previous < 255 then previous + 1 else previous

/-- A retry of one bundle begins: its rows are not reused, and nothing is pruned. -/
def startRetry (scanner : PluginScanner Info) (path : List UInt8) : PluginScanner Info :=
  { scanner with
    progress := { state := .probing, bundlesDiscovered := 1 }
    settled := []
    livePaths := []
    baseline := scanner.cache.entries.filter fun row => row.path.text ≠ path
    pruneOnCommit := false
    retrySeed := retryCount scanner.cache.entries path }

/-- The bundle is settled. -/
def settleBundle (scanner : PluginScanner Info) (bundle : BundleRef) : PluginScanner Info :=
  let (rows, reused) := settle probe now scanner.baseline scanner.retrySeed bundle
  { scanner with
    livePaths := scanner.livePaths ++ [bundle.path]
    settled := scanner.settled ++ rows
    progress := { scanner.progress with
      bundlesReused := scanner.progress.bundlesReused + if reused then 1 else 0
      bundlesProbed := scanner.progress.bundlesProbed + if reused then 0 else 1
      pluginsFound := scanner.progress.pluginsFound + rows.countP PluginDescriptor.usable } }

/-- The loop over the bundles; it may be cancelled after some of them. -/
def probeBundles (scanner : PluginScanner Info) :
    List BundleRef → Option ℕ → PluginScanner Info
  | [], _ => { scanner with progress := { scanner.progress with state := .complete } }
  | _ :: _, some 0 => { scanner with progress := { scanner.progress with state := .cancelled } }
  | bundle :: bundles, cancelAfter =>
    (scanner.settleBundle probe now bundle).probeBundles bundles (cancelAfter.map (· - 1))

/-- A full scan runs over the bundles found. -/
def run (scanner : PluginScanner Info) (bundles : List BundleRef) (cancelAfter : Option ℕ) :
    PluginScanner Info :=
  let progress :=
    { scanner.progress with bundlesDiscovered := bundles.length, state := .probing }
  { scanner with progress }.probeBundles probe now bundles cancelAfter

omit [Inhabited Info] in
/-- What was settled goes into the cache, if the scan is complete. -/
def commit (scanner : PluginScanner Info) : Option (PluginScanner Info) :=
  if scanner.progress.state = .complete then
    let (kept, removed) :=
      if scanner.pruneOnCommit then scanner.cache.retainOnly scanner.livePaths
      else (scanner.cache, 0)
    some { scanner with
      cache := scanner.settled.foldl PluginCache.upsert kept
      progress := { scanner.progress with pluginsRemoved := removed } }
  else none

end PluginScanner

end OneBeat.Scan
