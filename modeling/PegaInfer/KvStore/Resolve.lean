import PegaInfer.KvStore.Moves

namespace PegaInfer.KvStore

open PegaInfer.Kvbm

structure ResolvePolicy where
  waitForFullHit : Bool
  fullPages : Bool

/-- The arguments of `resolve_prefix`. `salt` is the scope's salt hash;
`tiered` says whether the rank has a host tier. -/
structure ResolveCall where
  prompt : List Token
  salt : Option SaltHash
  policy : ResolvePolicy
  tiered : Bool

/-- `LeasedBlocks`. A lease goes by the query that minted it. -/
structure LeasedBlocks where
  blocks : Nat
  lease : Nat
  deriving DecidableEq

/-- What a tier query settles to. -/
inductive TierReply
  | miss
  | loading
  | hit (blocks : Nat)
  | failed
  deriving DecidableEq

/-- What the tier was told to do with a lease. -/
inductive LeaseUse
  | load
  | release
  deriving DecidableEq

/-- `KvPrefix`; the hold is the index of its probe. -/
structure KvPrefix where
  hitTokens : Nat
  hold : Option Nat
  deriving DecidableEq

def KvPrefix.none : KvPrefix := ⟨0, .none⟩

/-- The tracked load task. -/
inductive LoadState
  | running
  | loaded
  | failed
  | panicked
  deriving DecidableEq

/-- Where `resolve_prefix` stands. `p` is its probe, `r` its reservation and
`q` the query it waits for. -/
inductive Phase
  | start
  | probed (p : Nat)
  | capped (p : Nat)
  | polling (p : Nat)
  | querying (p q : Nat)
  | pausing (p : Nat)
  | reserving (p : Nat) (hit : LeasedBlocks)
  | deciding (p : Nat) (hit : LeasedBlocks)
  | reserved (p : Nat) (hit : LeasedBlocks) (r : Nat)
  | loading (p : Nat)
  | finishing (p : Nat)
  | discarding (p : Nat)
  | returned (result : KvPrefix)
  deriving DecidableEq

/-- One resolve beside everyone else on the pool. `queries` are its detached
query tasks with what they settled to; `handed` is what the tier was told. -/
structure Resolve (H : Type) where
  system : System H
  phase : Phase
  expired : Bool
  queries : List (Option TierReply)
  handed : List (Nat × LeaseUse)
  load : Option (Nat × LoadState)

/-- The moves of the resolve, of its tasks and of the others. A `Bool` is what
the cancel probe says. -/
inductive Turn
  | pool (a : Action)
  | expires
  | replies (q : Nat) (reply : TierReply)
  | settles (result : LoadState)
  | begin (cancelled : Bool)
  | cap
  | look
  | poll (cancelled : Bool)
  | heard
  | queryElapsed
  | wakes
  | readAvailable
  | decide
  | take
  | proceed (cancelled : Bool)
  | loadJoined
  | loadElapsed
  | finish
  | discard
  | dropFuture
  | dropHold
  deriving DecidableEq

/-- The drop of an unread query output: `LeaseGuard` releases. -/
def TierReply.unread : TierReply → Nat → List (Nat × LeaseUse)
  | .hit _, q => [(q, .release)]
  | _, _ => []

/-- The holders a pool move works on. -/
def Action.names : Action → List Nat
  | .admitRead k _ => [k]
  | .call k _ => [k]
  | .retire k => [k]
  | .release k => [k]
  | .drop k => [k]
  | .includeFinal k => [k]
  | .truncate k _ => [k]
  | .commit p r => [p, r]
  | _ => []

/-- The holders a phase owns. -/
def Phase.owns : Phase → List Nat
  | .start => []
  | .probed p => [p]
  | .capped p => [p]
  | .polling p => [p]
  | .querying p _ => [p]
  | .pausing p => [p]
  | .reserving p _ => [p]
  | .deciding p _ => [p]
  | .reserved p _ r => [p, r]
  | .loading p => [p]
  | .finishing p => [p]
  | .discarding p => [p]
  | .returned result => result.hold.toList

def Phase.hasGate : Phase → Bool
  | .deciding _ _ => true
  | _ => false

namespace Resolve

variable {H : Type}

/-- What `resolve_prefix` starts from. -/
def new (system : System H) : Resolve H :=
  { system, phase := .start, expired := false, queries := [], handed := [], load := none }

def probeAt (w : Resolve H) (p : Nat) : Option (PrefixProbe H) :=
  match w.system.holders[p]? with
  | some (.probe probe) => some probe
  | _ => none

/-- The output of a query task that nobody will read. -/
def unread (w : Resolve H) (q : Nat) : List (Nat × LeaseUse) :=
  match w.queries[q]? with
  | some (some reply) => reply.unread q
  | _ => []

def awaits (w : Resolve H) (q : Nat) : Bool :=
  match w.phase with
  | .querying _ other => other == q
  | _ => false

def joins (w : Resolve H) : Bool :=
  match w.phase with
  | .loading _ => true
  | _ => false

/-- Nobody else touches what the resolve owns, nor its turn at the gate. -/
def excludes (w : Resolve H) (a : Action) : Bool :=
  (a.names.any fun k => k ∈ w.phase.owns ∨ k ∈ w.load.toList.map Prod.fst) ||
    (w.phase.hasGate && (a == .reserveDecide || a == .reserveTake))

/-- A hit the pool cannot take now: the guard drops, and the resolve ends or
pauses. -/
def declines (w : Resolve H) (p : Nat) (hit : LeasedBlocks) : Resolve H :=
  { w with
    phase := if w.expired then .finishing p else .pausing p
    handed := w.handed ++ [(hit.lease, .release)] }

variable [DecidableEq H] [SequenceHashing H]

/-- The load's join handle drops: a task that has settled gives its
reservation back, a running one keeps it. -/
def detach (w : Resolve H) : Option (Resolve H) :=
  match w.load with
  | some (_, .running) => some w
  | some (_, .panicked) => some { w with load := none }
  | some (r, _) => (w.system.step (.drop r)).map fun system => { w with system, load := none }
  | none => none

def step (call : ResolveCall) (w : Resolve H) : Turn → Option (Resolve H)
  | .pool a => if w.excludes a then none else (w.system.step a).map fun system => { w with system }
  | .expires => some { w with expired := true }
  | .replies q reply =>
    if w.queries[q]? = some none then
      some { w with
        queries := w.queries.set q (some reply)
        handed := w.handed ++ if w.awaits q then [] else reply.unread q }
    else none
  | .settles result =>
    match w.load with
    | some (r, .running) =>
      match result with
      | .running => none
      | .panicked => (w.system.step (.drop r)).map fun system =>
          { w with system, load := if w.joins then some (r, .panicked) else none }
      | settled =>
        if w.joins then some { w with load := some (r, settled) }
        else (w.system.step (.drop r)).map fun system => { w with system, load := none }
    | _ => none
  | .begin cancelled =>
    match w.phase with
    | .start =>
      if cancelled then some { w with phase := .returned .none }
      else (w.system.step (.probe call.prompt call.salt)).map fun system =>
        { w with system, phase := .probed w.system.holders.length }
    | _ => none
  | .cap =>
    match w.phase with
    | .probed p =>
      if call.policy.fullPages then
        (w.system.step (.includeFinal p)).map fun system => { w with system, phase := .capped p }
      else some { w with phase := .capped p }
    | _ => none
  | .look =>
    match w.phase with
    | .capped p =>
      match w.probeAt p with
      | some probe =>
        if call.tiered ∧ probe.cpuQueryHashes ≠ [] then some { w with phase := .polling p, expired := false }
        else some { w with phase := .finishing p }
      | none => none
    | _ => none
  | .poll cancelled =>
    match w.phase with
    | .polling p =>
      if cancelled then some { w with phase := .discarding p }
      else some { w with phase := .querying p w.queries.length, queries := w.queries ++ [none] }
    | _ => none
  | .heard =>
    match w.phase with
    | .querying p q =>
      match w.queries[q]? with
      | some (some .failed) => some { w with phase := .finishing p }
      | some (some .miss) =>
        if call.policy.waitForFullHit ∧ ¬ w.expired then some { w with phase := .pausing p }
        else some { w with phase := .finishing p }
      | some (some .loading) =>
        if w.expired then some { w with phase := .finishing p } else some { w with phase := .pausing p }
      | some (some (.hit blocks)) => some { w with phase := .reserving p ⟨blocks, q⟩ }
      | _ => none
    | _ => none
  | .queryElapsed =>
    match w.phase with
    | .querying p q =>
      if w.expired then some { w with phase := .finishing p, handed := w.handed ++ w.unread q } else none
    | _ => none
  | .wakes =>
    match w.phase with
    | .pausing p => some { w with phase := .polling p }
    | _ => none
  | .readAvailable =>
    match w.phase with
    | .reserving p hit => (w.system.step (.reserveRead hit.blocks)).map fun system =>
        { w with system, phase := .deciding p hit }
    | _ => none
  | .decide =>
    match w.phase with
    | .deciding p hit => (w.system.step .reserveDecide).map fun system =>
        if system.gate = .free then { w with system }.declines p hit else { w with system }
    | _ => none
  | .take =>
    match w.phase with
    | .deciding p hit => (w.system.step .reserveTake).map fun system =>
        if system.holders.length = w.system.holders.length then { w with system }.declines p hit
        else { w with system, phase := .reserved p hit w.system.holders.length }
    | _ => none
  | .proceed cancelled =>
    match w.phase with
    | .reserved p hit r =>
      if cancelled then
        (w.system.step (.drop r)).map fun system =>
          { w with system, phase := .discarding p, handed := w.handed ++ [(hit.lease, .release)] }
      else
        some { w with
          phase := .loading p
          handed := w.handed ++ [(hit.lease, .load)]
          load := some (r, .running) }
    | _ => none
  | .loadJoined =>
    match w.phase with
    | .loading p =>
      match w.load with
      | some (r, .loaded) => (w.system.step (.commit p r)).map fun system =>
          { w with system, phase := .finishing p, load := none }
      | some (r, .failed) => (w.system.step (.drop r)).map fun system =>
          { w with system, phase := .finishing p, load := none }
      | some (_, .panicked) => some { w with phase := .finishing p, load := none }
      | _ => none
    | _ => none
  | .loadElapsed =>
    match w.phase with
    | .loading p => if w.expired then w.detach.map fun w => { w with phase := .finishing p } else none
    | _ => none
  | .finish =>
    match w.phase with
    | .finishing p =>
      match w.probeAt p with
      | some probe =>
        let hitBlocks := min probe.held.length probe.cacheable
        if hitBlocks = 0 then (w.system.step (.drop p)).map fun system =>
          { w with system, phase := .returned .none }
        else
          (w.system.step (.truncate p hitBlocks)).map fun system =>
            { w with system, phase := .returned ⟨hitBlocks * w.system.pool.blockSize, some p⟩ }
      | none => none
    | _ => none
  | .discard =>
    match w.phase with
    | .discarding p => (w.system.step (.drop p)).map fun system => { w with system, phase := .returned .none }
    | _ => none
  | .dropFuture =>
    match w.phase with
    | .start => some { w with phase := .returned .none }
    | .querying p q => some { w with phase := .discarding p, handed := w.handed ++ w.unread q }
    | .pausing p => some { w with phase := .discarding p }
    | .loading p => w.detach.map fun w => { w with phase := .discarding p }
    | _ => none
  | .dropHold =>
    match w.phase with
    | .returned ⟨_, some p⟩ =>
      (w.system.step (.drop p)).map fun system => { w with system, phase := .returned .none }
    | _ => none

/-- A whole run, `none` where a turn is not permitted. -/
def run (permitted : Resolve H → Turn → Bool) (call : ResolveCall) (w : Resolve H) :
    List Turn → Option (Resolve H)
  | [] => some w
  | turn :: turns => if permitted w turn then (w.step call turn).bind fun w' =>
    w'.run permitted call turns else none

/-- Everything one turn can do. -/
inductive Turned (call : ResolveCall) (w : Resolve H) : Turn → Resolve H → Prop
  | pool {a : Action} {system : System H} (apart : w.excludes a = false)
      (went : w.system.step a = some system) :
      Turned call w (.pool a) { w with system }
  | expires : Turned call w .expires { w with expired := true }
  | replies {q : Nat} {reply : TierReply} (running : w.queries[q]? = some none) :
      Turned call w (.replies q reply)
        { w with
          queries := w.queries.set q (some reply)
          handed := w.handed ++ if w.awaits q then [] else reply.unread q }
  | settlesKept {r : Nat} {result : LoadState} (running : w.load = some (r, .running))
      (joins : w.joins = true)
      (settled : result = .loaded ∨ result = .failed) :
      Turned call w (.settles result) { w with load := some (r, result) }
  | settlesPanicked {r : Nat} {system : System H} (running : w.load = some (r, .running))
      (joins : w.joins = true)
      (went : w.system.step (.drop r) = some system) :
      Turned call w (.settles .panicked) { w with system, load := some (r, .panicked) }
  | settlesAlone {r : Nat} {result : LoadState} {system : System H} (running : w.load = some (r, .running))
      (alone : w.joins = false) (went : w.system.step (.drop r) = some system) :
      Turned call w (.settles result) { w with system, load := none }
  | beginCancelled (phase : w.phase = .start) :
      Turned call w (.begin true) { w with phase := .returned .none }
  | begin {system : System H} (phase : w.phase = .start)
      (went : w.system.step (.probe call.prompt call.salt) = some system) :
      Turned call w (.begin false) { w with system, phase := .probed w.system.holders.length }
  | capFull {p : Nat} {system : System H} (phase : w.phase = .probed p) (full : call.policy.fullPages = true)
      (went : w.system.step (.includeFinal p) = some system) :
        Turned call w .cap { w with system, phase := .capped p }
  | cap {p : Nat} (phase : w.phase = .probed p) (partly : call.policy.fullPages = false) :
      Turned call w .cap { w with phase := .capped p }
  | look {p : Nat} (phase : w.phase = .capped p) :
      Turned call w .look { w with phase := .polling p, expired := false }
  | lookNone {p : Nat} (phase : w.phase = .capped p) : Turned call w .look { w with phase := .finishing p }
  | pollCancelled {p : Nat} (phase : w.phase = .polling p) :
      Turned call w (.poll true) { w with phase := .discarding p }
  | poll {p : Nat} (phase : w.phase = .polling p) :
      Turned call w (.poll false)
        { w with phase := .querying p w.queries.length, queries := w.queries ++ [none] }
  | heard {p q : Nat} {reply : TierReply} {phase' : Phase} (phase : w.phase = .querying p q)
      (settled : w.queries[q]? = some (some reply)) (leaseless : ∀ blocks, reply ≠ .hit blocks)
      (next : phase' = .finishing p ∨ phase' = .pausing p) : Turned call w .heard { w with phase := phase' }
  | heardHit {p q blocks : Nat} (phase : w.phase = .querying p q)
      (settled : w.queries[q]? = some (some (.hit blocks))) :
      Turned call w .heard { w with phase := .reserving p ⟨blocks, q⟩ }
  | queryElapsed {p q : Nat} (phase : w.phase = .querying p q) :
      Turned call w .queryElapsed { w with phase := .finishing p, handed := w.handed ++ w.unread q }
  | wakes {p : Nat} (phase : w.phase = .pausing p) : Turned call w .wakes { w with phase := .polling p }
  | readAvailable {p : Nat} {hit : LeasedBlocks} {system : System H} (phase : w.phase = .reserving p hit)
      (went : w.system.step (.reserveRead hit.blocks) = some system) :
      Turned call w .readAvailable { w with system, phase := .deciding p hit }
  | decide {p : Nat} {hit : LeasedBlocks} {system : System H} (phase : w.phase = .deciding p hit)
      (went : w.system.step .reserveDecide = some system) (granted : system.gate ≠ .free) :
      Turned call w .decide { w with system }
  | decideRefused {p : Nat} {hit : LeasedBlocks} {system : System H} (phase : w.phase = .deciding p hit)
      (went : w.system.step .reserveDecide = some system) :
      Turned call w .decide ({ w with system }.declines p hit)
  | take {p : Nat} {hit : LeasedBlocks} {system : System H} (phase : w.phase = .deciding p hit)
      (went : w.system.step .reserveTake = some system)
        (more : system.holders.length ≠ w.system.holders.length) :
      Turned call w .take { w with system, phase := .reserved p hit w.system.holders.length }
  | takeFailed {p : Nat} {hit : LeasedBlocks} {system : System H} (phase : w.phase = .deciding p hit)
      (went : w.system.step .reserveTake = some system) :
      Turned call w .take ({ w with system }.declines p hit)
  | proceedCancelled {p r : Nat} {hit : LeasedBlocks} {system : System H}
      (phase : w.phase = .reserved p hit r)
      (went : w.system.step (.drop r) = some system) :
      Turned call w (.proceed true)
        { w with system, phase := .discarding p, handed := w.handed ++ [(hit.lease, .release)] }
  | proceed {p r : Nat} {hit : LeasedBlocks} (phase : w.phase = .reserved p hit r) :
      Turned call w (.proceed false)
        { w with phase := .loading p, handed := w.handed ++ [(hit.lease, .load)], load := some (r, .running) }
  | joinedLoaded {p r : Nat} {system : System H} (phase : w.phase = .loading p)
      (settled : w.load = some (r, .loaded))
      (went : w.system.step (.commit p r) = some system) :
      Turned call w .loadJoined { w with system, phase := .finishing p, load := none }
  | joinedFailed {p r : Nat} {system : System H} (phase : w.phase = .loading p)
      (settled : w.load = some (r, .failed))
      (went : w.system.step (.drop r) = some system) :
      Turned call w .loadJoined { w with system, phase := .finishing p, load := none }
  | joinedPanicked {p r : Nat} (phase : w.phase = .loading p) (settled : w.load = some (r, .panicked)) :
      Turned call w .loadJoined { w with phase := .finishing p, load := none }
  | loadElapsed {p : Nat} {w' : Resolve H} (phase : w.phase = .loading p) (detached : w.detach = some w') :
      Turned call w .loadElapsed { w' with phase := .finishing p }
  | finishNone {p : Nat} {system : System H} (phase : w.phase = .finishing p)
      (went : w.system.step (.drop p) = some system) :
        Turned call w .finish { w with system, phase := .returned .none }
  | finish {p : Nat} {probe : PrefixProbe H} {system : System H} (phase : w.phase = .finishing p)
      (atP : w.system.holders[p]? = some (.probe probe))
      (went : w.system.step (.truncate p (min probe.held.length probe.cacheable)) = some system) :
      Turned call w .finish
        { w with
          system
          phase := .returned ⟨min probe.held.length probe.cacheable * w.system.pool.blockSize, some p⟩ }
  | discard {p : Nat} {system : System H} (phase : w.phase = .discarding p)
      (went : w.system.step (.drop p) = some system) :
        Turned call w .discard { w with system, phase := .returned .none }
  | dropStart (phase : w.phase = .start) : Turned call w .dropFuture { w with phase := .returned .none }
  | dropQuerying {p q : Nat} (phase : w.phase = .querying p q) :
      Turned call w .dropFuture { w with phase := .discarding p, handed := w.handed ++ w.unread q }
  | dropPausing {p : Nat} (phase : w.phase = .pausing p) :
      Turned call w .dropFuture { w with phase := .discarding p }
  | dropLoading {p : Nat} {w' : Resolve H} (phase : w.phase = .loading p) (detached : w.detach = some w') :
      Turned call w .dropFuture { w' with phase := .discarding p }
  | dropHold {p hitTokens : Nat} {system : System H} (phase : w.phase = .returned ⟨hitTokens, some p⟩)
      (went : w.system.step (.drop p) = some system) :
        Turned call w .dropHold { w with system, phase := .returned .none }

omit [DecidableEq H] [SequenceHashing H] in
theorem probeAt_eq {w : Resolve H} {p : Nat} {probe : PrefixProbe H} (found : w.probeAt p = some probe) :
    w.system.holders[p]? = some (.probe probe) := by
  unfold probeAt at found
  split at found
  · cases found
    assumption
  · simp at found

theorem step_turned {call : ResolveCall} {w w' : Resolve H} {turn : Turn}
    (went : w.step call turn = some w') :
    Turned call w turn w' := by
  cases turn with
  | pool a =>
    simp only [step] at went
    split at went
    · simp at went
    · rename_i apart
      obtain ⟨system, moved, rfl⟩ := Option.map_eq_some_iff.mp went
      exact .pool (by simpa using apart) moved
  | expires =>
    cases went
    exact .expires
  | replies q reply =>
    simp only [step] at went
    split at went
    · cases went
      exact .replies ‹_›
    · simp at went
  | settles result =>
    simp only [step] at went
    split at went
    · rename_i r running
      cases result with
      | running => simp at went
      | panicked =>
        obtain ⟨system, moved, rfl⟩ := Option.map_eq_some_iff.mp went
        cases joins : w.joins with
        | false => simpa using Turned.settlesAlone running joins moved
        | true => simpa using Turned.settlesPanicked running joins moved
      | loaded =>
        simp only at went
        split at went
        · cases went
          exact .settlesKept running ‹_› (.inl rfl)
        · rename_i alone
          obtain ⟨system, moved, rfl⟩ := Option.map_eq_some_iff.mp went
          exact .settlesAlone running (by simpa using alone) moved
      | failed =>
        simp only at went
        split at went
        · cases went
          exact .settlesKept running ‹_› (.inr rfl)
        · rename_i alone
          obtain ⟨system, moved, rfl⟩ := Option.map_eq_some_iff.mp went
          exact .settlesAlone running (by simpa using alone) moved
    · simp at went
  | begin cancelled =>
    simp only [step] at went
    split at went
    · rename_i phase
      cases cancelled with
      | true =>
        cases went
        exact .beginCancelled phase
      | false =>
        simp only [Bool.false_eq_true, if_false] at went
        obtain ⟨system, moved, rfl⟩ := Option.map_eq_some_iff.mp went
        exact .begin phase moved
    · simp at went
  | cap =>
    simp only [step] at went
    split at went
    · rename_i p phase
      split at went
      · obtain ⟨system, moved, rfl⟩ := Option.map_eq_some_iff.mp went
        exact .capFull phase ‹_› moved
      · rename_i partly
        cases went
        exact .cap phase (by simpa using partly)
    · simp at went
  | look =>
    simp only [step] at went
    split at went
    · rename_i p phase
      split at went
      · split at went <;> cases went
        · exact .look phase
        · exact .lookNone phase
      · simp at went
    · simp at went
  | poll cancelled =>
    simp only [step] at went
    split at went
    · rename_i p phase
      cases cancelled <;> cases went
      · exact .poll phase
      · exact .pollCancelled phase
    · simp at went
  | heard =>
    simp only [step] at went
    split at went
    · rename_i p q phase
      split at went
      · rename_i settled
        cases went
        exact .heard phase settled (by simp) (.inl rfl)
      · rename_i settled
        split at went <;> cases went
        · exact .heard phase settled (by simp) (.inr rfl)
        · exact .heard phase settled (by simp) (.inl rfl)
      · rename_i settled
        split at went <;> cases went
        · exact .heard phase settled (by simp) (.inl rfl)
        · exact .heard phase settled (by simp) (.inr rfl)
      · rename_i settled
        cases went
        exact .heardHit phase settled
      · simp at went
    · simp at went
  | queryElapsed =>
    simp only [step] at went
    split at went
    · rename_i p q phase
      split at went <;> cases went
      exact .queryElapsed phase
    · simp at went
  | wakes =>
    simp only [step] at went
    split at went <;> cases went
    exact .wakes ‹_›
  | readAvailable =>
    simp only [step] at went
    split at went
    · obtain ⟨system, moved, rfl⟩ := Option.map_eq_some_iff.mp went
      exact .readAvailable ‹_› moved
    · simp at went
  | decide =>
    simp only [step] at went
    split at went
    · rename_i p hit phase
      obtain ⟨system, moved, rfl⟩ := Option.map_eq_some_iff.mp went
      split
      · exact .decideRefused phase moved
      · exact .decide phase moved ‹_›
    · simp at went
  | take =>
    simp only [step] at went
    split at went
    · rename_i p hit phase
      obtain ⟨system, moved, rfl⟩ := Option.map_eq_some_iff.mp went
      split
      · exact .takeFailed phase moved
      · exact .take phase moved ‹_›
    · simp at went
  | proceed cancelled =>
    simp only [step] at went
    split at went
    · rename_i p hit r phase
      cases cancelled with
      | true =>
        simp only [if_true] at went
        obtain ⟨system, moved, rfl⟩ := Option.map_eq_some_iff.mp went
        exact .proceedCancelled phase moved
      | false =>
        cases went
        exact .proceed phase
    · simp at went
  | loadJoined =>
    simp only [step] at went
    split at went
    · rename_i p phase
      split at went
      · obtain ⟨system, moved, rfl⟩ := Option.map_eq_some_iff.mp went
        exact .joinedLoaded phase ‹_› moved
      · obtain ⟨system, moved, rfl⟩ := Option.map_eq_some_iff.mp went
        exact .joinedFailed phase ‹_› moved
      · cases went
        exact .joinedPanicked phase ‹_›
      · simp at went
    · simp at went
  | loadElapsed =>
    simp only [step] at went
    split at went
    · rename_i p phase
      split at went
      · obtain ⟨w', detached, rfl⟩ := Option.map_eq_some_iff.mp went
        exact .loadElapsed phase detached
      · simp at went
    · simp at went
  | finish =>
    simp only [step] at went
    split at went
    · rename_i p phase
      split at went
      · rename_i probe found
        split at went
        · obtain ⟨system, moved, rfl⟩ := Option.map_eq_some_iff.mp went
          exact .finishNone phase moved
        · obtain ⟨system, moved, rfl⟩ := Option.map_eq_some_iff.mp went
          exact .finish phase (probeAt_eq found) moved
      · simp at went
    · simp at went
  | discard =>
    simp only [step] at went
    split at went
    · obtain ⟨system, moved, rfl⟩ := Option.map_eq_some_iff.mp went
      exact .discard ‹_› moved
    · simp at went
  | dropFuture =>
    simp only [step] at went
    split at went
    · cases went
      exact .dropStart ‹_›
    · cases went
      exact .dropQuerying ‹_›
    · cases went
      exact .dropPausing ‹_›
    · obtain ⟨w', detached, rfl⟩ := Option.map_eq_some_iff.mp went
      exact .dropLoading ‹_› detached
    · simp at went
  | dropHold =>
    simp only [step] at went
    split at went
    · obtain ⟨system, moved, rfl⟩ := Option.map_eq_some_iff.mp went
      exact .dropHold ‹_› moved
    · simp at went

/-- Dropping the join handle gives a settled task's reservation back. -/
theorem detach_cases {w w' : Resolve H} (detached : w.detach = some w') :
    (∃ r, w.load = some (r, .running) ∧ w' = w) ∨
      (∃ r, w.load = some (r, .panicked) ∧ w' = { w with load := none }) ∨
      ∃ r state system, w.load = some (r, state) ∧ (state = .loaded ∨ state = .failed) ∧
        w.system.step (.drop r) = some system ∧ w' = { w with system, load := none } := by
  unfold detach at detached
  split at detached
  · cases detached
    exact .inl ⟨_, ‹_›, rfl⟩
  · cases detached
    exact .inr (.inl ⟨_, ‹_›, rfl⟩)
  · rename_i r state notRunning notPanicked load
    obtain ⟨system, moved, rfl⟩ := Option.map_eq_some_iff.mp detached
    refine .inr (.inr ⟨r, state, system, load, ?_, moved, rfl⟩)
    cases state <;> simp_all
  · simp at detached

end Resolve

end PegaInfer.KvStore
