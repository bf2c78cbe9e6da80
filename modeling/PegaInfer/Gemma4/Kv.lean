import PegaInfer.Basic
import PegaInfer.Lib.PagedRows

namespace PegaInfer.Gemma4

open PagedRows

abbrev pageSize : Nat := 16

/-- `tokens.div_ceil(PAGE_SIZE)`. -/
def pagesFor (tokens : Nat) : Nat := (tokens + 15) / 16

/-- The release law: whole pages no query at `frontier` or later reads. -/
def originAt (window frontier : Nat) : Nat := (frontier - window) / 16

/-- `PagePool`. The free list is a stack, its top at the head. -/
structure Pool where
  free : List Nat

/-- `KvPool::new`: page 0 is the padding page. -/
def Pool.new (numPages : Nat) : Pool := ⟨List.range' 1 (numPages - 1)⟩

def Pool.availablePages (pool : Pool) : Nat := pool.free.length

def Pool.tryReserve (pool : Pool) (pages : Nat) : Option (List Nat × Pool) :=
  if pool.free.length < pages then none else some (pool.free.take pages, ⟨pool.free.drop pages⟩)

/-- One reservation a page, until `need` are held or the pool is dry. -/
def Pool.reserveEach (pool : Pool) (need : Nat) : List Nat × Pool :=
  (pool.free.take need, ⟨pool.free.drop need⟩)

/-- `Drop for OwnedPagePermit`: the permit's first page ends on top. -/
def Pool.dropPermit (pool : Pool) (pages : List Nat) : Pool := ⟨pages ++ pool.free⟩

/-- One-page reservations dropped front to back. -/
def Pool.dropEach (pool : Pool) (pages : List Nat) : Pool := ⟨pages.reverse ++ pool.free⟩

structure Pools where
  local_ : Pool
  global : Pool

/-- Both families' buffers: each row is the token prefix it was computed from. -/
structure Rows where
  local_ : Memory (List Token)
  global : Memory (List Token)

structure SlidingLocalKv where
  resident : List Nat
  originPages : Nat
  frontier : Nat
  deriving DecidableEq

structure KvState where
  pages : List Nat
  seqLen : Nat
  deriving DecidableEq

structure GemmaKv where
  local_ : SlidingLocalKv
  global : KvState
  deriving DecidableEq

/-- `alloc_kv`. -/
def allocKv : GemmaKv := ⟨⟨[], 0, 0⟩, ⟨[], 0⟩⟩

/-- A dropped request gives its pages back to both pools. -/
def Pools.drop (pools : Pools) (kv : GemmaKv) : Pools :=
  ⟨pools.local_.dropEach kv.local_.resident, pools.global.dropPermit kv.global.pages⟩

structure ReleasePlan where
  frontier : Nat
  originPages : Nat
  releasePages : Nat

def planRelease (kv : SlidingLocalKv) (tokens window : Nat) : Option ReleasePlan :=
  let frontier := kv.frontier + tokens
  let originPages := originAt window frontier
  if originPages < kv.originPages then none
  else if kv.resident.length < originPages - kv.originPages then none
  else some ⟨frontier, originPages, originPages - kv.originPages⟩

/-- `advance_and_release`. -/
def advanceAndRelease (pool : Pool) (kv : SlidingLocalKv) (count window : Nat) :
    Option (SlidingLocalKv × Pool) :=
  match planRelease kv count window with
  | none => none
  | some plan =>
    some (⟨kv.resident.drop plan.releasePages, plan.originPages, plan.frontier⟩,
      pool.dropEach (kv.resident.take plan.releasePages))

def pagesToReserve (kvLen accounted : Nat) : Option Nat :=
  if pagesFor kvLen < accounted then none else some (pagesFor kvLen - accounted)

/-- `admit_tokens`. A refused side hands the other side's pages back. -/
def admitTokens (pools : Pools) (kv : GemmaKv) (newTokens : Nat) : Option GemmaKv × Pools :=
  let kvLen := kv.local_.frontier + newTokens
  if kv.local_.frontier ≠ kv.global.seqLen then (none, pools)
  else
    match pagesToReserve kvLen (kv.local_.originPages + kv.local_.resident.length),
        pagesToReserve kvLen kv.global.pages.length with
    | some localNeed, some globalNeed =>
      let localRs := pools.local_.reserveEach localNeed
      let refused : Pools := ⟨localRs.2.dropEach localRs.1, pools.global⟩
      if localRs.1.length = localNeed then
        match pools.global.tryReserve globalNeed with
        | some (globalR, rest) =>
          (some ⟨⟨kv.local_.resident ++ localRs.1, kv.local_.originPages, kv.local_.frontier⟩,
            ⟨kv.global.pages ++ globalR, kv.global.seqLen⟩⟩, ⟨localRs.2, rest⟩)
        | none => (none, refused)
      else (none, refused)
    | _, _ => (none, pools)

/-- The prefixes of `base ++ tokens` longer than `base`, one for each token. -/
def prefixesFrom (base : List Token) : List Token → List (List Token)
  | [] => []
  | token :: tokens => (base ++ [token]) :: prefixesFrom (base ++ [token]) tokens

/-- The prefix the last row below the frontier was computed from. -/
def lastPrefix (rows : Rows) (kv : GemmaKv) : List Token :=
  if kv.global.seqLen = 0 then []
  else (row rows.global pageSize kv.global.pages (kv.global.seqLen - 1)).getD []

/-- The layers of one pass append a row for each token to both families. What a row is
computed from is what the rows before it hold, and the tokens themselves. -/
def runTower (rows : Rows) (kv : GemmaKv) (localRow globalRow : List Nat) (tokens : List Token) : Rows :=
  let values := prefixesFrom (lastPrefix rows kv) tokens
  ⟨write rows.local_ pageSize localRow (kv.local_.frontier - kv.local_.originPages * pageSize) values,
    write rows.global pageSize globalRow kv.global.seqLen values⟩

/-- `check_step_bounds`. -/
def checkStepBounds (maxContext : Nat) (kv : GemmaKv) (kvLen : Nat) : Bool :=
  kv.local_.frontier == kv.global.seqLen && kvLen ≤ maxContext

/-- The bounds, and the resident window does not start past the step. -/
def stepBounds (maxContext : Nat) (kv : GemmaKv) (count : Nat) : Bool :=
  checkStepBounds maxContext kv (kv.local_.frontier + count) && kv.local_.originPages * pageSize ≤
    kv.local_.frontier

/-- `prepare_single` and `decode_row`: both rows cover the step exactly. -/
def prepareSingle (maxContext : Nat) (kv : GemmaKv) (count : Nat) : Option (List Nat × List Nat) :=
  let kvLen := kv.local_.frontier + count
  if count = 0 then none
  else if !stepBounds maxContext kv count then none
  else if kv.local_.resident.length ≠ pagesFor (kvLen - kv.local_.originPages * pageSize) then none
  else if kv.global.pages.length ≠ pagesFor kvLen then none
  else some (kv.local_.resident, kv.global.pages)

/-- A prompt's entry of a mixed step: its rows reach far enough and are cut to their
coverage. -/
def prepareMixed (maxContext : Nat) (kv : GemmaKv) (count : Nat) : Option (List Nat × List Nat) :=
  let kvLen := kv.local_.frontier + count
  let localCover := pagesFor (kvLen - kv.local_.originPages * pageSize)
  if !stepBounds maxContext kv count then none
  else if kv.local_.resident.length < localCover then none
  else if kv.global.pages.length < pagesFor kvLen then none
  else some (kv.local_.resident.take localCover, kv.global.pages.take (pagesFor kvLen))

/-- Append then attend: the front is released once the rows are written. -/
def settleStep (window : Nat) (pools : Pools) (kv : GemmaKv) (count : Nat) : Option (GemmaKv × Pools) :=
  match advanceAndRelease pools.local_ kv.local_ count window with
  | none => none
  | some (moved, pool) => some (⟨moved, ⟨kv.global.pages, kv.global.seqLen + count⟩⟩, ⟨pool, pools.global⟩)

/-- The local row a query reads for the position `p` of the sequence. -/
def GemmaKv.localRow (kv : GemmaKv) (rows : Rows) (p : Nat) : Option (List Token) :=
  if kv.local_.originPages * pageSize ≤ p then row rows.local_ pageSize kv.local_.resident
    (p - kv.local_.originPages * pageSize) else none

def GemmaKv.globalRow (kv : GemmaKv) (rows : Rows) (p : Nat) : Option (List Token) :=
  row rows.global pageSize kv.global.pages p

/-- Both frontiers, the origin and the page counts. -/
def GemmaKv.shape (kv : GemmaKv) : Nat × Nat × Nat × Nat × Nat :=
  (kv.local_.frontier, kv.local_.originPages, kv.local_.resident.length, kv.global.seqLen,
    kv.global.pages.length)

end PegaInfer.Gemma4
