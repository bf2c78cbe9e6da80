import PegaInfer.Gemma4.Checkpoint

namespace PegaInfer.Gemma4

/-- The serving configuration `EngineState::load` accepts. -/
structure EngineConfig where
  maxContext : Nat
  slots : Nat
  window : Nat
  chunk : Option Nat
  lane : Bool
  cacheCap : Option Nat
  coalesce : Option Nat
  globalSplitFactor : Nat
  bf16 : Bool
  slots_pos : 0 < slots
  slots_le : slots ≤ 16
  chunk_range : ∀ width, chunk = some width → 64 ≤ width ∧ width < maxContext
  cap_pos : ∀ cap, cacheCap = some cap → 0 < cap
  whole_scan : 8192 < maxContext → chunk ≠ none ∧ lane = false
  door_or_lane : coalesce ≠ none → lane = false

namespace EngineConfig

variable (config : EngineConfig)

def contextPages : Nat := pagesFor config.maxContext

def windowPages : Nat := pagesFor config.window + 1

def mixMaxPrompts : Nat := 4

def transientPages : Nat :=
  match config.chunk with
  | some chunk =>
    if config.lane then config.contextPages else config.windowPages + pagesFor chunk + (mixMaxPrompts - 1)
  | none => config.contextPages

def cacheEntries : Nat := config.cacheCap.getD 0

/-- `pool_pages`. -/
def localPoolPages : Nat :=
  (config.slots - 1) * config.windowPages + config.transientPages + 1 +
    config.cacheEntries * config.windowPages

def globalPoolPages : Nat :=
  config.slots * config.contextPages + 1 + config.cacheEntries * entryGlobalPages config.maxContext

end EngineConfig

/-- `usize::next_power_of_two`. -/
def nextPowerOfTwo (n : Nat) : Nat := grow n 1
where
  grow : Nat → Nat → Nat
    | 0, power => power
    | fuel + 1, power => if n ≤ power then power else grow fuel (2 * power)

def EngineConfig.arenaRows (config : EngineConfig) : Nat := nextPowerOfTwo config.slots

structure SteadyRow where
  kvLen : Nat
  localOrigin : Nat
  localPages : Nat
  globalPages : Nat
  globalChunks : Nat
  deriving DecidableEq

structure SteadyDecode where
  padded : Nat
  rows : List SteadyRow
  deriving DecidableEq

def SteadyRow.advancesTo (current next : SteadyRow) : Bool :=
  next.kvLen == current.kvLen + 1 && next.localOrigin == current.localOrigin &&
    next.localPages == current.localPages &&
    next.globalPages == current.globalPages && next.globalChunks == current.globalChunks

def SteadyDecode.advancesTo (current next : SteadyDecode) : Bool :=
  current.padded == next.padded && current.rows.length == next.rows.length &&
    (current.rows.zip next.rows).all fun pair => pair.1.advancesTo pair.2

/-- `kv_len.div_ceil(GLOBAL_SPLIT_CHUNK_TOKENS)`. -/
def chunksFor (kvLen : Nat) : Nat := (kvLen + 255) / 256

def steadyRow (kv : GemmaKv) : Option SteadyRow :=
  let kvLen := kv.local_.frontier + 1
  let residentLen := kvLen - kv.local_.originPages * pageSize
  if kvLen < kv.local_.originPages * pageSize then none
  else if residentLen = 0 then none
  else if kv.local_.resident.length ≠ pagesFor residentLen ∨ kv.global.pages.length ≠ pagesFor kvLen then none
  else some ⟨kvLen, kv.local_.originPages, kv.local_.resident.length, kv.global.pages.length, chunksFor kvLen⟩

def decodeFingerprint (kvs : List GemmaKv) (padded : Nat) : Option SteadyDecode :=
  (kvs.mapM steadyRow).map (⟨padded, ·⟩)

/-- Tokens in the last of the pages `tokens` fill. -/
def lastPageLen (tokens : Nat) : Nat := if tokens % 16 = 0 then 16 else tokens % 16

structure DecodeRow where
  position : Nat
  localRow : List Nat
  localLast : Nat
  localStart : Nat
  localOrigin : Nat
  globalRow : List Nat
  globalLast : Nat

/-- `decode_row`. -/
def decodeRow (maxContext : Nat) (kv : GemmaKv) : Option DecodeRow :=
  (prepareSingle maxContext kv 1).map fun (localRow, globalRow) =>
    let position := kv.local_.frontier
    let start := position - kv.local_.originPages * pageSize
    { position, localRow, localLast := lastPageLen (start + 1), localStart := start,
      localOrigin := kv.local_.originPages,
      globalRow, globalLast := lastPageLen (position + 1) }

/-- A pad row writes the reserved padding page at position 0 with a one-token window. -/
def padRow : DecodeRow := ⟨0, [0], 1, 0, 0, [0], 1⟩

/-- `build_split_kv_csr`'s tables over the chunk counts of the requests. -/
structure SplitKvCsr where
  requestIndices : List Nat
  kvTileIndices : List Nat
  blockValidMask : List Bool
  oIndptr : List Nat
  deriving DecidableEq

/-- Where each of the lists starts when they are laid end to end. -/
def indptr (lengths : List Nat) : List Nat := lengths.scanl (· + ·) 0

def buildSplitKvCsr (cap : Nat) (kvLens : List Nat) : Option SplitKvCsr :=
  let chunks := kvLens.map fun kvLen => max (chunksFor kvLen) 1
  if chunks.any (cap < ·) then none
  else
    let padding := kvLens.length * cap - chunks.sum
    some
      { requestIndices := (chunks.zipIdx.flatMap fun (count, request) =>
          List.replicate count request) ++ List.replicate padding 0
        kvTileIndices := (chunks.flatMap List.range) ++ List.replicate padding 0
        blockValidMask := List.replicate chunks.sum true ++ List.replicate padding false
        oIndptr := indptr chunks }

/-- The tables a decode step reads on the device. -/
structure Tables where
  localPages : List Nat
  localIndptr : List Nat
  localOrigins : List Nat
  localLast : List Nat
  kvChunk : List Nat
  globalPages : List Nat
  globalIndptr : List Nat
  positions : List Nat
  pseudoPages : List Nat
  pseudoIndptr : List Nat
  pseudoLast : List Nat
  csr : SplitKvCsr
  deriving DecidableEq

def Tables.blank : Tables := ⟨[], [], [], [], [], [], [], [], [], [], [], ⟨[], [], [], []⟩⟩

/-- `global_split_cap`. -/
def EngineConfig.splitCap (config : EngineConfig) : Nat := chunksFor config.maxContext

/-- The rows' entries fit the preallocated slots. -/
def EngineConfig.tablesFit (config : EngineConfig) (rows : List DecodeRow) : Bool :=
  (rows.flatMap (·.localRow)).length ≤ config.localPoolPages &&
    (rows.flatMap (·.globalRow)).length ≤ config.globalPoolPages

/-- `upload_split_kv_tables`: each row as `global_split_factor` pseudo requests. -/
def uploadSplitKvTables (config : EngineConfig) (rows : List DecodeRow) (tables : Tables) : Option Tables :=
  let pseudo := rows.flatMap (List.replicate config.globalSplitFactor)
  (buildSplitKvCsr config.splitCap (pseudo.map fun row =>
    (row.globalRow.length - 1) * 16 + row.globalLast)).map fun csr =>
    { tables with
      pseudoPages := pseudo.flatMap (·.globalRow)
      pseudoIndptr := indptr (pseudo.map (·.globalRow.length))
      pseudoLast := pseudo.map (·.globalLast)
      csr }

/-- What a refill uploads for these rows. -/
def uploadTables (config : EngineConfig) (rows : List DecodeRow) (tables : Tables) : Option Tables :=
  if !config.tablesFit rows then none
  else
    uploadSplitKvTables config rows
      { tables with
        localPages := rows.flatMap (·.localRow)
        localIndptr := indptr (rows.map (·.localRow.length))
        localOrigins := rows.map (·.localOrigin)
        localLast := rows.map (·.localLast)
        kvChunk := rows.map (·.localStart + 1)
        globalPages := rows.flatMap (·.globalRow)
        globalIndptr := indptr (rows.map (·.globalRow.length))
        positions := rows.map (·.position) }

/-- The refill of `plan_decode_batch`. -/
def refillTables (config : EngineConfig) (kvs : List GemmaKv) (padded : Nat)
    (tables : Tables) : Option Tables :=
  match kvs.mapM (decodeRow config.maxContext) with
  | none => none
  | some rows => uploadTables config (rows ++ List.replicate (padded - kvs.length) padRow) tables

def bump (count : Nat) (values : List Nat) : List Nat := (values.take count).map (· + 1) ++ values.drop count

/-- `advance_decode_metadata`. -/
def Tables.advance (tables : Tables) (rows factor : Nat) : Tables :=
  { tables with
    positions := bump rows tables.positions
    localLast := bump rows tables.localLast
    kvChunk := bump rows tables.kvChunk
    pseudoLast := bump (rows * factor) tables.pseudoLast }

end PegaInfer.Gemma4
