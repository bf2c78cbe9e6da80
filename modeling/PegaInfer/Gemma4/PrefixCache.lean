import PegaInfer.Gemma4.Kv
import PegaInfer.Lib.SwapRemove

namespace PegaInfer.Gemma4

open SwapRemove

/-- One captured conversation tail. -/
structure CachedKv where
  tokenIds : List Token
  globalPages : List Nat
  localPages : List Nat
  localOrigin : Nat
  id : Nat
  stamp : Nat
  deriving DecidableEq

structure PrefixCache where
  entries : List CachedKv
  cap : Nat
  window : Nat
  clock : Nat

def PrefixCache.new (cap window : Nat) : PrefixCache := ⟨[], cap, window, 0⟩

def entryGlobalPages (maxContext : Nat) : Nat := pagesFor maxContext / 2

/-- How many tokens two sequences share at their front. -/
def commonLength : List Token → List Token → Nat
  | cached :: tokenIds, requested :: prompt =>
    if cached = requested then commonLength tokenIds prompt + 1 else 0
  | _, _ => 0

def resumePoint (entry : CachedKv) (window : Nat) (prompt : List Token) : Option Nat :=
  let lcp := commonLength entry.tokenIds prompt
  if prompt.length = 0 then none
  else
    let resume := min lcp (prompt.length - 1)
    let floor := if entry.localOrigin = 0 then 64 else max (entry.localOrigin * pageSize + window) 64
    if floor ≤ resume then some resume else none

/-- `max_by_key`: a later entry wins a tie. -/
def pickResume (best : Option (Nat × Nat)) (index : Nat) : Option Nat → Option (Nat × Nat)
  | none => best
  | some t => if best.any (t < ·.2) then best else some (index, t)

/-- The entry that resumes furthest, with its place. -/
def bestResume (window : Nat) (prompt : List Token) :
    Nat → List CachedKv → Option (Nat × Nat) → Option (Nat × Nat)
  | _, [], best => best
  | index, entry :: entries, best =>
    bestResume window prompt (index + 1) entries (pickResume best index (resumePoint entry window prompt))

/-- `PrefixCache::resolve`. The entry found is stamped in place. -/
def PrefixCache.resolve (cache : PrefixCache) (prompt : List Token) : Option (CachedKv × Nat) × PrefixCache :=
  let clock := cache.clock + 1
  match bestResume cache.window prompt 0 cache.entries none with
  | none => (none, { cache with clock })
  | some (index, t) =>
    match cache.entries[index]? with
    | none => (none, { cache with clock })
    | some best =>
      (some ({ best with stamp := clock }, t),
        { cache with clock, entries := cache.entries.set index { best with stamp := clock } })

/-- `min_by_key` over the stamps: an earlier entry wins a tie. -/
def oldestFrom : Nat → List CachedKv → Option (Nat × Nat) → Option (Nat × Nat)
  | _, [], oldest => oldest
  | index, entry :: entries, oldest =>
    oldestFrom (index + 1) entries (if oldest.any (·.2 ≤ entry.stamp) then oldest
      else some (index, entry.stamp))

/-- A dropped entry returns its pages to both pools. -/
def Pools.dropEntry (pools : Pools) (entry : CachedKv) : Pools :=
  ⟨pools.local_.dropEach entry.localPages, pools.global.dropPermit entry.globalPages⟩

/-- `evict_lru`. -/
def PrefixCache.evictLru (cache : PrefixCache) (pools : Pools) : Bool × PrefixCache × Pools :=
  match oldestFrom 0 cache.entries none with
  | none => (false, cache, pools)
  | some (index, _) =>
    match cache.entries[index]? with
    | none => (false, cache, pools)
    | some oldest => (true, { cache with entries := swapRemove cache.entries index }, pools.dropEntry oldest)

/-- The stale ancestor of the entry to be inserted. -/
def PrefixCache.replaceAncestor (cache : PrefixCache) (pools : Pools) : Option Nat → PrefixCache × Pools
  | none => (cache, pools)
  | some id =>
    ({ cache with entries := cache.entries.filter (·.id != id) },
      (cache.entries.filter (·.id == id)).foldl Pools.dropEntry pools)

/-- `PrefixCache::insert`. -/
def PrefixCache.insert (cache : PrefixCache) (pools : Pools) (entry : CachedKv)
    (ancestor : Option Nat) : PrefixCache × Pools :=
  let clock := cache.clock + 1
  let replaced := ({ cache with clock } : PrefixCache).replaceAncestor pools ancestor
  let fitting := if replaced.1.cap ≤ replaced.1.entries.length
    then (replaced.1.evictLru replaced.2).2 else replaced
  ({ fitting.1 with entries := fitting.1.entries ++ [{ entry with id := clock, stamp := clock }] }, fitting.2)

end PegaInfer.Gemma4
