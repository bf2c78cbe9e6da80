import PegaInfer.Gemma4.PrefixCache

namespace PegaInfer.Gemma4

open PagedRows

/-- `POOL_SLACK_PAGES`. -/
abbrev poolSlackPages : Nat := 128

/-- The pages of `capture_checkpoint`. `copied` is the outcome of the page copies. -/
def capturePages (maxContext : Nat) (pools : Pools) (kv : GemmaKv) (tokenIds : List Token)
    (copied : Bool) : Option CachedKv × Pools :=
  let globalSrc := kv.global.pages
  let localSrc := kv.local_.resident
  if entryGlobalPages maxContext < globalSrc.length then (none, pools)
  else if pools.local_.availablePages < localSrc.length + poolSlackPages ∨
      pools.global.availablePages < globalSrc.length + poolSlackPages then (none, pools)
  else
    match pools.global.tryReserve globalSrc.length with
    | none => (none, pools)
    | some (globalDst, globalRest) =>
      let localRs := pools.local_.reserveEach localSrc.length
      if localRs.1.length < localSrc.length ∨ copied = false then
        (none, ⟨localRs.2.dropEach localRs.1, globalRest.dropPermit globalDst⟩)
      else (some ⟨tokenIds, globalDst, localRs.1, kv.local_.originPages, 0, 0⟩, ⟨localRs.2, globalRest⟩)

/-- `capture_checkpoint`: the pages and, once they are the cache's, the copies. -/
def captureCheckpoint (maxContext : Nat) (pools : Pools) (rows : Rows) (kv : GemmaKv)
    (tokenIds : List Token) (copied : Bool) :
    Option CachedKv × Pools × Rows :=
  match capturePages maxContext pools kv tokenIds copied with
  | (none, pools) => (none, pools, rows)
  | (some entry, pools) =>
    (some entry, pools,
      ⟨copy rows.local_ (kv.local_.resident.zip entry.localPages),
        copy rows.global (kv.global.pages.zip entry.globalPages)⟩)

/-- The pages of `restore_from_checkpoint`. -/
def restorePages (window : Nat) (pools : Pools) (entry : CachedKv) (t : Nat) (copied : Bool) :
    Option GemmaKv × Pools :=
  let originT := originAt window t
  let localTake := pagesFor t - originT
  let localSkip := originT - entry.localOrigin
  if t = 0 ∨ entry.tokenIds.length < t then (none, pools)
  else if originT < entry.localOrigin then (none, pools)
  else if entry.localPages.length < localSkip + localTake then (none, pools)
  else
    match pools.global.tryReserve (pagesFor t) with
    | none => (none, pools)
    | some (globalDst, globalRest) =>
      let globalSrc := entry.globalPages.take globalDst.length
      let localRs := pools.local_.reserveEach localTake
      if globalSrc.length ≠ globalDst.length then (none, ⟨pools.local_, globalRest.dropPermit globalDst⟩)
      else if localRs.1.length < localTake ∨ copied = false then
        (none, ⟨localRs.2.dropEach localRs.1, globalRest.dropPermit globalDst⟩)
      else (some ⟨⟨localRs.1, originT, t⟩, ⟨globalDst, t⟩⟩, ⟨localRs.2, globalRest⟩)

/-- `restore_from_checkpoint`. -/
def restoreFromCheckpoint (window : Nat) (pools : Pools) (rows : Rows) (entry : CachedKv)
    (t : Nat) (copied : Bool) :
    Option GemmaKv × Pools × Rows :=
  match restorePages window pools entry t copied with
  | (none, pools) => (none, pools, rows)
  | (some kv, pools) =>
    let localSrc := (entry.localPages.drop (originAt window t - entry.localOrigin)).take
      kv.local_.resident.length
    (some kv, pools,
      ⟨copy rows.local_ (localSrc.zip kv.local_.resident),
        copy rows.global ((entry.globalPages.take kv.global.pages.length).zip kv.global.pages)⟩)

structure KvConfig where
  window : Nat
  maxContext : Nat
  cap : Nat
  localPages : Nat
  globalPages : Nat
  cap_pos : 0 < cap

/-- Where a request stands between its admission and its retirement. -/
inductive Stage
  | prefilling
  | flying
  | prefilled
  | decoding
  deriving DecidableEq

/-- A request that holds KV. `fed` are the tokens decoded steps appended after its prompt and
`reserved` the tokens the last admission made room for. -/
structure Live where
  prompt : List Token
  fed : List Token
  resumed : Option Nat
  kv : GemmaKv
  reserved : Nat
  stage : Stage

/-- The tokens whose rows the request's KV is meant to hold. -/
def Live.context (live : Live) : List Token := live.prompt ++ live.fed

structure KvMachine where
  pools : Pools
  rows : Rows
  cache : PrefixCache
  live : List Live

def KvMachine.initial (config : KvConfig) (rows : Rows) : KvMachine :=
  ⟨⟨Pool.new config.localPages, Pool.new config.globalPages⟩, rows,
    PrefixCache.new config.cap config.window, []⟩

/-- The moves of the engine on its KV. A request is named by its place among the live ones.
A batched step is its requests' passes one after the other, and a failed one retires them. -/
inductive KvOp
  | arrive (prompt : List Token) (copied : Bool)
  | reserve (index count : Nat)
  | segment (index : Nat) (mixed : Bool)
  | launch (index : Nat)
  | join (index : Nat)
  | capture (index : Nat) (copied : Bool)
  | settle (index : Nat)
  | decode (index : Nat) (token : Token)
  | evict
  | retire (index : Nat)

/-- `resolve_newcomer_kv`. -/
def KvMachine.arrive (machine : KvMachine) (prompt : List Token) (copied : Bool) : KvMachine :=
  match machine.cache.resolve prompt with
  | (none, cache) =>
    ⟨machine.pools, machine.rows, cache, machine.live ++ [⟨prompt, [], none, allocKv, 0, .prefilling⟩]⟩
  | (some (entry, t), cache) =>
    match restoreFromCheckpoint cache.window machine.pools machine.rows entry t copied with
    | (some kv, pools, rows) =>
      ⟨pools, rows, cache, machine.live ++ [⟨prompt, [], some entry.id, kv, 0, .prefilling⟩]⟩
    | (none, pools, rows) =>
      ⟨pools, rows, cache, machine.live ++ [⟨prompt, [], none, allocKv, 0, .prefilling⟩]⟩

/-- Room is made for a segment of the prompt or for a decode step's token. -/
def Live.mayReserve (live : Live) (count : Nat) : Bool :=
  match live.stage with
  | .prefilling => live.kv.local_.frontier + count ≤ live.prompt.length
  | .decoding => count == 1
  | _ => false

/-- `admit_tokens`. -/
def KvMachine.reserve (machine : KvMachine) (index : Nat) (live : Live) (count : Nat) : KvMachine :=
  if live.mayReserve count then
    match admitTokens machine.pools live.kv count with
    | (some kv, pools) =>
      { machine with pools, live := machine.live.set index { live with kv, reserved := count } }
    | (none, pools) => { machine with pools }
  else machine

/-- The prompt's tokens of the segment room was made for. -/
def Live.nextSegment (live : Live) : List Token :=
  (live.prompt.drop live.kv.local_.frontier).take live.reserved

/-- `step` and a prompt's entry of `mixed_prefill_decode_step`. -/
def KvMachine.segment (config : KvConfig) (machine : KvMachine) (index : Nat) (live : Live)
    (mixed : Bool) : KvMachine :=
  if live.stage = .prefilling ∧ 0 < live.reserved then
    let prepare := if mixed then prepareMixed else prepareSingle
    match prepare config.maxContext live.kv live.reserved with
    | none => machine
    | some (localRow, globalRow) =>
      match settleStep config.window machine.pools live.kv live.reserved with
      | none => machine
      | some (kv, pools) =>
        let stage := if kv.local_.frontier = live.prompt.length then .prefilled else .prefilling
        { machine with
          pools
          rows := runTower machine.rows live.kv localRow globalRow live.nextSegment
          live := machine.live.set index { live with kv, stage, reserved := 0 } }
  else machine

/-- `prefill_into_logits`: the whole rest of the prompt, its release deferred. -/
def KvMachine.launch (config : KvConfig) (machine : KvMachine) (index : Nat) (live : Live) : KvMachine :=
  if live.stage = .prefilling ∧ live.kv.local_.frontier + live.reserved = live.prompt.length then
    match prepareSingle config.maxContext live.kv live.reserved with
    | none => machine
    | some (localRow, globalRow) =>
      let kv : GemmaKv :=
        ⟨⟨live.kv.local_.resident, live.kv.local_.originPages, live.kv.local_.frontier + live.reserved⟩,
          ⟨live.kv.global.pages, live.kv.global.seqLen + live.reserved⟩⟩
      { machine with
        rows := runTower machine.rows live.kv localRow globalRow live.nextSegment
        live := machine.live.set index { live with kv, stage := .flying, reserved := 0 } }
  else machine

/-- `release_prefill_window`. -/
def KvMachine.join (config : KvConfig) (machine : KvMachine) (index : Nat) (live : Live) : KvMachine :=
  if live.stage = .flying then
    match settleStep config.window machine.pools live.kv 0 with
    | none => machine
    | some (kv, pools) =>
      { machine with pools, live := machine.live.set index { live with kv, stage := .prefilled } }
  else machine

/-- `capture_prefix`. -/
def KvMachine.capture (config : KvConfig) (machine : KvMachine) (live : Live) (copied : Bool) : KvMachine :=
  if live.stage = .prefilled then
    match captureCheckpoint config.maxContext machine.pools machine.rows live.kv live.prompt copied with
    | (none, pools, rows) => { machine with pools, rows }
    | (some entry, pools, rows) =>
      let inserted := machine.cache.insert pools entry live.resumed
      { machine with cache := inserted.1, pools := inserted.2, rows }
  else machine

/-- One row of a decode step. -/
def KvMachine.decode (config : KvConfig) (machine : KvMachine) (index : Nat) (live : Live)
    (token : Token) : KvMachine :=
  if live.stage = .decoding then
    match prepareSingle config.maxContext live.kv 1 with
    | none => machine
    | some (localRow, globalRow) =>
      match settleStep config.window machine.pools live.kv 1 with
      | none => machine
      | some (kv, pools) =>
        { machine with
          pools
          rows := runTower machine.rows live.kv localRow globalRow [token]
          live := machine.live.set index { live with kv, fed := live.fed ++ [token], reserved := 0 } }
  else machine

def KvMachine.settle (machine : KvMachine) (index : Nat) (live : Live) : KvMachine :=
  if live.stage = .prefilled
    then { machine with live := machine.live.set index { live with stage := .decoding } } else machine

def KvMachine.step (config : KvConfig) (machine : KvMachine) : KvOp → KvMachine
  | .arrive prompt copied => machine.arrive prompt copied
  | .evict =>
    let evicted := (machine.cache.evictLru machine.pools).2
    { machine with cache := evicted.1, pools := evicted.2 }
  | .reserve index count => machine.live[index]?.elim machine fun live => machine.reserve index live count
  | .segment index mixed =>
    machine.live[index]?.elim machine fun live => machine.segment config index live mixed
  | .launch index => machine.live[index]?.elim machine fun live => machine.launch config index live
  | .join index => machine.live[index]?.elim machine fun live => machine.join config index live
  | .capture index copied => machine.live[index]?.elim machine fun live => machine.capture config live copied
  | .settle index => machine.live[index]?.elim machine fun live => machine.settle index live
  | .decode index token =>
    machine.live[index]?.elim machine fun live => machine.decode config index live token
  | .retire index =>
    machine.live[index]?.elim machine fun live =>
      { machine with pools := machine.pools.drop live.kv, live := machine.live.eraseIdx index }

/-- A run of the engine's moves from its start. -/
def KvMachine.run (config : KvConfig) (rows : Rows) (ops : List KvOp) : KvMachine :=
  ops.foldl (KvMachine.step config) (KvMachine.initial config rows)

end PegaInfer.Gemma4
