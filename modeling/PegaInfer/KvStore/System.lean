import PegaInfer.Kvbm.Operations
import PegaInfer.KvStore.Pool

namespace PegaInfer.KvStore

open PegaInfer.Kvbm PegaInfer.Lib

/-- Everything that can hold blocks of a pool. A holder keeps its index for
life. -/
inductive Holder (H : Type)
  | request (request : RequestKv H)
  | probe (probe : PrefixProbe H)
  | reservation (ids : List BlockId)
  | padding (block : ImmutableBlock H)
  | gone

/-- The reserve gate, with what the call that has it read so far. -/
inductive Gate
  | free
  | admitting (k credited available : Nat)
  | reserving (count available : Nat)
  | granted (count : Nat)
  deriving DecidableEq

/-- An admitted request's calls wait for the gate. -/
def Gate.blocks : Gate → Nat → Bool → Bool
  | .free, _, _ => false
  | .admitting k _ _, caller, admitted => admitted || k == caller
  | .reserving _ _, _, admitted => admitted
  | .granted _, _, admitted => admitted

/-- A request inside `try_admit` is borrowed. -/
def Gate.borrows : Gate → Nat → Bool
  | .admitting k _ _, caller => k == caller
  | _, _ => false

/-- A pool with every owner of its blocks, run by any number of threads. -/
structure System (H : Type) where
  pool : BlockPool H
  gate : Gate
  holders : List (Holder H)

/-- One move of some thread. `try_admit`, `reserve_loaded_blocks` and the two
halves of `release` and of a drop are moves of their own: what does not take
the gate runs in between. -/
inductive Action
  | newRequest (prompt : List Token) (maxOutputTokens : Nat) (salt : Option SaltHash)
  | evictInactive
  | admitRead (k credited : Nat)
  | admitDecide
  | call (k : Nat) (op : KvOp)
  | retire (k : Nat)
  | release (k : Nat)
  | drop (k : Nat)
  | probe (prompt : List Token) (salt : Option SaltHash)
  | includeFinal (k : Nat)
  | truncate (k blocks : Nat)
  | reserveRead (count : Nat)
  | reserveDecide
  | reserveTake
  | commit (probe reservation : Nat)
  deriving DecidableEq

namespace System

variable {H : Type} [DecidableEq H] [SequenceHashing H]

def new (blockSize numBlocks : Nat) : Option (System H) :=
  (BlockPool.new blockSize numBlocks).map fun made =>
    { pool := made.1, gate := .free, holders := [.padding made.2] }

def setHolder (s : System H) (k : Nat) (holder : Holder H) : System H :=
  { s with holders := s.holders.set k holder }

def setStore (s : System H) (store : BlockStore H) : System H := { s with pool := { s.pool with store } }

/-- One move, `none` where the caller must wait, does not exist or panics. A
call that returns an error changes nothing. -/
def step (s : System H) : Action → Option (System H)
  | .newRequest prompt maxOutputTokens salt =>
    some { s with holders := s.holders ++ [.request (s.pool.newRequest prompt maxOutputTokens salt)] }
  | .evictInactive => some (s.setStore s.pool.store.evictInactive)
  | .admitRead k credited =>
    match s.gate, s.holders[k]? with
    | .free, some (.request request) =>
      if request.admitted then some s
        else some { s with gate := .admitting k credited s.pool.availableBlocks }
    | _, _ => none
  | .admitDecide =>
    match s.gate with
    | .admitting k credited available =>
      match s.holders[k]? with
      | some (.request request) =>
        if request.covered credited available s.pool.entitledBlocks then
          let (request', pool) := request.declare s.pool
          some { pool, gate := .free, holders := s.holders.set k (.request request') }
        else some { s with gate := .free }
      | _ => none
    | _ => none
  | .call k op =>
    match s.holders[k]? with
    | some (.request request) =>
      if s.gate.blocks k request.admitted then none
      else
        match request.withDraw s.pool op with
        | .ok (request', pool) => some { s with pool, holders := s.holders.set k (.request request') }
        | .error .panicked => none
        | .error _ => some s
    | _ => none
  | .retire k =>
    match s.holders[k]? with
    | some (.request request) =>
      if s.gate.borrows k then none
      else
        let (request', pool) := request.retire s.pool
        some { s with pool, holders := s.holders.set k (.request request') }
    | _ => none
  | .release k =>
    match s.holders[k]? with
    | some (.request request) =>
      if request.admitted || s.gate.borrows k then none
      else
        match request.seq.release s.pool.store with
        | .ok (seq, store) => some ((s.setStore store).setHolder k (.request { request with seq }))
        | .error _ => some s
    | _ => none
  | .drop k =>
    match s.holders[k]? with
    | some (.request request) =>
      if request.admitted || s.gate.borrows k then none
      else some ((s.setStore (request.seq.dropBlocks s.pool.store)).setHolder k .gone)
    | some (.probe probe) => some ((s.setStore (s.pool.store.dropAllImmutable probe.held)).setHolder k .gone)
    | some (.reservation ids) => some ((s.setStore (s.pool.store.releaseAllMutable ids)).setHolder k .gone)
    | _ => none
  | .probe prompt salt =>
    let (pool, probe) := s.pool.probePrefix prompt salt
    some { s with pool, holders := s.holders ++ [.probe probe] }
  | .includeFinal k =>
    match s.holders[k]? with
    | some (.probe probe) => some (s.setHolder k (.probe probe.includeFinalBlock))
    | _ => none
  | .truncate k blocks =>
    match s.holders[k]? with
    | some (.probe probe) =>
      some ((s.setStore (s.pool.store.dropAllImmutable (probe.held.drop blocks))).setHolder k
        (.probe { probe with held := probe.held.take blocks }))
    | _ => none
  | .reserveRead count =>
    match s.gate with
    | .free => some { s with gate := .reserving count s.pool.availableBlocks }
    | _ => none
  | .reserveDecide =>
    match s.gate with
    | .reserving count available =>
      some { s with gate := if available < count + s.pool.entitledBlocks then .free else .granted count }
    | _ => none
  | .reserveTake =>
    match s.gate with
    | .granted count =>
      match s.pool.store.allocateAtomic count with
      | none => some { s with gate := .free }
      | some (store, ids) =>
        some { (s.setStore store) with gate := .free, holders := s.holders ++ [.reservation ids] }
    | _ => none
  | .commit p r =>
    match s.holders[p]?, s.holders[r]? with
    | some (.probe probe), some (.reservation ids) =>
      match s.pool.commitLoadedBlocks probe ids with
      | none => none
      | some (pool, probe') => some { s with pool, holders := (s.holders.set r .gone).set p (.probe probe') }
    | _, _ => none

/-- A whole run. -/
def run (s : System H) : List Action → Option (System H)
  | [] => some s
  | action :: actions => (s.step action).bind fun s' => s'.run actions

end System

/-- What a holder keeps out of the pools. -/
def Holder.holding {H : Type} : Holder H → Holding H
  | .request kv => kv.seq.holding
  | .probe hold => Holding.blocks hold.held
  | .reservation ids => Holding.guards ids
  | .padding block => Holding.block block
  | .gone => 0

end PegaInfer.KvStore
