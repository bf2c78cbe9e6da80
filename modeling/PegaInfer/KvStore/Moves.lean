import PegaInfer.KvStore.System

namespace PegaInfer.KvStore

open PegaInfer.Kvbm PegaInfer.Lib

variable {H : Type} [DecidableEq H] [SequenceHashing H]

/-- Everything one step can do. -/
inductive Moved (s : System H) : Action → System H → Prop
  | newRequest (prompt : List Token) (maxOutputTokens : Nat) (salt : Option SaltHash) :
      Moved s (.newRequest prompt maxOutputTokens salt)
        { s with holders := s.holders ++ [.request (s.pool.newRequest prompt maxOutputTokens salt)] }
  | evictInactive : Moved s .evictInactive (s.setStore s.pool.store.evictInactive)
  | admitAgain {k credited : Nat} {request : RequestKv H} (atK : s.holders[k]? = some (.request request))
      (admitted : request.admitted = true) : Moved s (.admitRead k credited) s
  | admitRead {k credited : Nat} {request : RequestKv H} (gate : s.gate = .free)
      (atK : s.holders[k]? = some (.request request)) (fresh : request.admitted = false) :
      Moved s (.admitRead k credited) { s with gate := .admitting k credited s.pool.availableBlocks }
  | admitGranted {k credited available : Nat} {request : RequestKv H}
      (gate : s.gate = .admitting k credited available)
      (atK : s.holders[k]? = some (.request request))
      (covered : request.covered credited available s.pool.entitledBlocks = true) :
      Moved s .admitDecide
        { pool := (request.declare s.pool).2, gate := .free,
          holders := s.holders.set k (.request (request.declare s.pool).1) }
  | admitRefused {k credited available : Nat} {request : RequestKv H}
      (gate : s.gate = .admitting k credited available)
      (atK : s.holders[k]? = some (.request request)) : Moved s .admitDecide { s with gate := .free }
  | call {k : Nat} {op : KvOp} {request : RequestKv H} {seq : SchedulableSequence H} {store : BlockStore H}
      (atK : s.holders[k]? = some (.request request)) (passes : s.gate.blocks k request.admitted = false)
      (done : RequestKv.runOp request.seq s.pool.store op = .ok (seq, store)) :
      Moved s (.call k op)
        { s with
          pool := (request.settle s.pool seq store).2
          holders := s.holders.set k (.request (request.settle s.pool seq store).1) }
  | callFailed {k : Nat} {op : KvOp} {request : RequestKv H} {fault : Fault}
      (atK : s.holders[k]? = some (.request request)) (passes : s.gate.blocks k request.admitted = false)
      (failed : RequestKv.runOp request.seq s.pool.store op = .error fault) (calm : fault ≠ .panicked) :
      Moved s (.call k op) s
  | retire {k : Nat} {request : RequestKv H} (atK : s.holders[k]? = some (.request request))
      (owned : s.gate.borrows k = false) :
      Moved s (.retire k)
        { s with
          pool := (request.retire s.pool).2
          holders := s.holders.set k (.request (request.retire s.pool).1) }
  | release {k : Nat} {request : RequestKv H} {seq : SchedulableSequence H} {store : BlockStore H}
      (atK : s.holders[k]? = some (.request request)) (retired : request.admitted = false)
      (owned : s.gate.borrows k = false) (done : request.seq.release s.pool.store = .ok (seq, store)) :
      Moved s (.release k) ((s.setStore store).setHolder k (.request { request with seq }))
  | releaseFailed {k : Nat} {request : RequestKv H} {fault : Fault}
      (atK : s.holders[k]? = some (.request request))
      (failed : request.seq.release s.pool.store = .error fault) : Moved s (.release k) s
  | dropRequest {k : Nat} {request : RequestKv H} (atK : s.holders[k]? = some (.request request))
      (retired : request.admitted = false) (owned : s.gate.borrows k = false) :
      Moved s (.drop k) ((s.setStore (request.seq.dropBlocks s.pool.store)).setHolder k .gone)
  | dropProbe {k : Nat} {probe : PrefixProbe H} (atK : s.holders[k]? = some (.probe probe)) :
      Moved s (.drop k) ((s.setStore (s.pool.store.dropAllImmutable probe.held)).setHolder k .gone)
  | dropReservation {k : Nat} {ids : List BlockId} (atK : s.holders[k]? = some (.reservation ids)) :
      Moved s (.drop k) ((s.setStore (s.pool.store.releaseAllMutable ids)).setHolder k .gone)
  | probe (prompt : List Token) (salt : Option SaltHash) :
      Moved s (.probe prompt salt)
        { s with
          pool := (s.pool.probePrefix prompt salt).1
          holders := s.holders ++ [.probe (s.pool.probePrefix prompt salt).2] }
  | includeFinal {k : Nat} {probe : PrefixProbe H} (atK : s.holders[k]? = some (.probe probe)) :
      Moved s (.includeFinal k) (s.setHolder k (.probe probe.includeFinalBlock))
  | truncate {k blocks : Nat} {probe : PrefixProbe H} (atK : s.holders[k]? = some (.probe probe)) :
      Moved s (.truncate k blocks)
        ((s.setStore (s.pool.store.dropAllImmutable (probe.held.drop blocks))).setHolder k
          (.probe { probe with held := probe.held.take blocks }))
  | reserveRead {count : Nat} (gate : s.gate = .free) :
      Moved s (.reserveRead count) { s with gate := .reserving count s.pool.availableBlocks }
  | reserveRefused {count available : Nat} (gate : s.gate = .reserving count available) :
      Moved s .reserveDecide { s with gate := .free }
  | reserveGranted {count available : Nat} (gate : s.gate = .reserving count available)
      (above : count + s.pool.entitledBlocks ≤ available) :
        Moved s .reserveDecide { s with gate := .granted count }
  | reserveFailed {count : Nat} (gate : s.gate = .granted count) :
      Moved s .reserveTake { s with gate := .free }
  | reserveTake {count : Nat} {store : BlockStore H} {ids : List BlockId} (gate : s.gate = .granted count)
      (alloc : s.pool.store.allocateAtomic count = some (store, ids)) :
      Moved s .reserveTake
        { (s.setStore store) with gate := .free, holders := s.holders ++ [.reservation ids] }
  | commit {p r : Nat} {probe probe' : PrefixProbe H} {ids : List BlockId} {pool : BlockPool H}
      (atP : s.holders[p]? = some (.probe probe)) (atR : s.holders[r]? = some (.reservation ids))
      (done : s.pool.commitLoadedBlocks probe ids = some (pool, probe')) :
      Moved s (.commit p r) { s with pool, holders := (s.holders.set r .gone).set p (.probe probe') }

theorem System.step_moved {s s' : System H} {a : Action} (went : s.step a = some s') : Moved s a s' := by
  cases a with
  | newRequest prompt maxOutputTokens salt =>
    cases went
    exact .newRequest prompt maxOutputTokens salt
  | evictInactive =>
    cases went
    exact .evictInactive
  | admitRead k credited =>
    simp only [step] at went
    split at went
    · rename_i request gate atK
      split at went <;> cases went
      · exact .admitAgain atK ‹_›
      · exact .admitRead gate atK (by simpa using ‹¬ request.admitted = true›)
    · simp at went
  | admitDecide =>
    simp only [step] at went
    split at went
    · rename_i gate
      split at went
      · split at went <;> cases went
        · exact .admitGranted gate ‹_› ‹_›
        · exact .admitRefused gate ‹_›
      · simp at went
    · simp at went
  | call k op =>
    simp only [step, RequestKv.withDraw] at went
    split at went
    · rename_i request atK
      split at went
      · simp at went
      · rename_i passes
        simp only [Bool.not_eq_true] at passes
        split at went
        · rename_i done
          split at done
          · simp at done
          · rename_i run
            cases went
            cases done
            exact .call atK passes run
        · simp at went
        · rename_i fault calm done
          split at done
          · rename_i fault' run
            cases went
            cases done
            exact .callFailed atK passes run calm
          · simp at done
    · simp at went
  | retire k =>
    simp only [step] at went
    split at went
    · split at went
      · simp at went
      · cases went
        exact .retire ‹_› (by simpa using ‹¬ s.gate.borrows k = true›)
    · simp at went
  | release k =>
    simp only [step] at went
    split at went
    · rename_i request atK
      split at went
      · simp at went
      · rename_i allowed
        simp only [Bool.or_eq_true, not_or, Bool.not_eq_true] at allowed
        split at went <;> cases went
        · exact .release atK allowed.1 allowed.2 ‹_›
        · exact .releaseFailed atK ‹_›
    · simp at went
  | drop k =>
    simp only [step] at went
    split at went
    · rename_i request atK
      split at went
      · simp at went
      · rename_i allowed
        simp only [Bool.or_eq_true, not_or, Bool.not_eq_true] at allowed
        cases went
        exact .dropRequest atK allowed.1 allowed.2
    · cases went
      exact .dropProbe ‹_›
    · cases went
      exact .dropReservation ‹_›
    · simp at went
  | probe prompt salt =>
    cases went
    exact .probe prompt salt
  | includeFinal k =>
    simp only [step] at went
    split at went <;> cases went
    exact .includeFinal ‹_›
  | truncate k blocks =>
    simp only [step] at went
    split at went <;> cases went
    exact .truncate ‹_›
  | reserveRead count =>
    simp only [step] at went
    split at went <;> cases went
    exact .reserveRead ‹_›
  | reserveDecide =>
    simp only [step] at went
    split at went
    · rename_i gate
      cases went
      split
      · exact .reserveRefused gate
      · exact .reserveGranted gate (by omega)
    · simp at went
  | reserveTake =>
    simp only [step] at went
    split at went
    · split at went <;> cases went
      · exact .reserveFailed ‹_›
      · exact .reserveTake ‹_› ‹_›
    · simp at went
  | commit p r =>
    simp only [step] at went
    split at went
    · split at went <;> cases went
      exact .commit ‹_› ‹_› ‹_›
    · simp at went

end PegaInfer.KvStore
