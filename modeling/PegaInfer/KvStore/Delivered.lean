import PegaInfer.KvStore.Holdings
import PegaInfer.KvStore.Leases
import PegaInfer.Kvbm.Quiet

namespace PegaInfer.KvStore

open PegaInfer.Kvbm PegaInfer.Lib

variable {H : Type} [DecidableEq H] [SequenceHashing H]

/-- The hash of a block keeps its position: no two blocks of a chain share
one. -/
def Positional (H : Type) [SequenceHashing H] : Prop :=
  ∀ blockSize salt tokens, (sequenceHashes blockSize salt tokens : List H).Nodup

theorem chainKey_positional : Positional ChainKey := by
  intro blockSize salt tokens
  refine List.Nodup.map_on ?_ List.nodup_range
  intro i iBound j jBound same
  rw [List.mem_range] at iBound jBound
  obtain ⟨-, prefixes⟩ := chainKey_collisionFree.injective _ _ _ _ same
  have iEnd := Nat.mul_le_of_le_div _ _ _ (Nat.succ_le_of_lt iBound)
  have jEnd := Nat.mul_le_of_le_div _ _ _ (Nat.succ_le_of_lt jBound)
  have pos : 0 < blockSize := by
    rcases Nat.eq_zero_or_pos blockSize with rfl | pos
    · simp at iBound
    · exact pos
  have lengths := congrArg List.length prefixes
  rw [List.length_take_of_le iEnd, List.length_take_of_le jEnd] at lengths
  have sameIndex := Nat.eq_of_mul_eq_mul_right pos lengths
  omega

section Frames

variable {s s' : System H} {a : Action}

theorem Moved.blockSize_eq (moved : Moved s a s') : s'.pool.blockSize = s.pool.blockSize := by
  cases moved with
  | retire atK owned => exact (System.retire_unchanged _ _).2.1
  | commit atP atR done =>
    obtain ⟨_, _, -, rfl, -⟩ := BlockPool.commitLoadedBlocks_cases done
    rfl
  | _ => rfl

/-- A move leaves a probe or a reservation it does not work on where it is. -/
theorem Moved.holder_keeps (moved : Moved s a s') {k : Nat} {holder : Holder H}
    (atK : s.holders[k]? = some holder)
    (kind : ∀ request, holder ≠ .request request) (apart : k ∉ a.names) : s'.holders[k]? = some holder := by
  have appended : ∀ new : Holder H, (s.holders ++ [new])[k]? = some holder := by
    intro new
    rw [List.getElem?_append_left (List.getElem?_eq_some_iff.mp atK).1]
    exact atK
  have elsewhere : ∀ {j : Nat} {new : Holder H}, j ≠ k → (s.holders.set j new)[k]? = some holder := by
    intro j new other
    rw [List.getElem?_set_ne other]
    exact atK
  have differs : ∀ {j : Nat} {request : RequestKv H}, s.holders[j]? = some (.request request) → j ≠ k := by
    rintro j request atJ rfl
    exact kind request (Option.some.inj (atK.symm.trans atJ))
  cases moved with
  | newRequest prompt maxOutputTokens salt => exact appended _
  | evictInactive => exact atK
  | admitAgain atJ admitted => exact atK
  | admitRead gate atJ fresh => exact atK
  | admitGranted gate atJ covered => exact elsewhere (differs atJ)
  | admitRefused gate atJ => exact atK
  | call atJ passes done => exact elsewhere (differs atJ)
  | callFailed atJ passes failed calm => exact atK
  | retire atJ owned => exact elsewhere (differs atJ)
  | release atJ retired owned done => exact elsewhere (differs atJ)
  | releaseFailed atJ failed => exact atK
  | dropRequest atJ retired owned => exact elsewhere (differs atJ)
  | dropProbe atJ => exact elsewhere (by rintro rfl; simp [Action.names] at apart)
  | dropReservation atJ => exact elsewhere (by rintro rfl; simp [Action.names] at apart)
  | probe prompt salt => exact appended _
  | includeFinal atJ => exact elsewhere (by rintro rfl; simp [Action.names] at apart)
  | truncate atJ => exact elsewhere (by rintro rfl; simp [Action.names] at apart)
  | reserveRead gate => exact atK
  | reserveRefused gate => exact atK
  | reserveGranted gate above => exact atK
  | reserveFailed gate => exact atK
  | reserveTake gate alloc => exact appended _
  | @commit p r probe probe' ids pool atP atR done =>
    simp only [Action.names, List.mem_cons, List.not_mem_nil, or_false, not_or] at apart
    rw [List.getElem?_set_ne (Ne.symm apart.1), List.getElem?_set_ne (Ne.symm apart.2)]
    exact atK

theorem System.run_blockSize {actions : List Action} (ran : s.run actions = some s') :
    s'.pool.blockSize = s.pool.blockSize := by
  induction actions generalizing s with
  | nil =>
    cases ran
    rfl
  | cons a actions ih =>
    obtain ⟨next, went, ran⟩ := Option.bind_eq_some_iff.mp ran
    exact (ih ran).trans (System.step_moved went).blockSize_eq

theorem System.Ok.run {actions : List Action} (ok : s.Ok) (ran : s.run actions = some s') : s'.Ok := by
  induction actions generalizing s with
  | nil =>
    cases ran
    exact ok
  | cons a actions ih =>
    obtain ⟨next, went, ran⟩ := Option.bind_eq_some_iff.mp ran
    exact ih (ok.moved (System.step_moved went)) ran

end Frames

section Store

variable {store : BlockStore H} {held : Holding H}

omit [SequenceHashing H] in
/-- Two guards of one block carry one hash. -/
theorem matchBlocks_nodup (ok : store.Ok held) {hashes : List H} (distinct : hashes.Nodup) :
    ((store.matchBlocks hashes).2.map ImmutableBlock.blockId).Nodup := by
  obtain ⟨names, -⟩ := BlockStore.matchBlocks_hashes hashes store
  have after := BlockStore.transfers_match hashes store held (by rwa [zero_add])
  set found := (store.matchBlocks hashes).2 with found_eq
  have slots : ∀ block ∈ found, ((store.matchBlocks hashes).1.slots block.blockId).RegisteredAs
      block.hash := by
    intro block member
    obtain ⟨rest, split⟩ := Holding.blocks_mem member
    rw [split, add_assoc] at after
    rcases after.slot_of_block.1 with primary | duplicate
    · exact Or.inl primary
    · exact Or.inr (Or.inl duplicate)
  have named : (found.map ImmutableBlock.hash).Nodup := by
    rw [names]
    exact distinct.sublist (List.take_sublist _ _)
  rw [List.nodup_map_iff_inj_on (List.Nodup.of_map _ named)]
  intro block member other member' same
  have first := slots block member
  have second := slots other member'
  rw [same] at first
  refine (List.nodup_map_iff_inj_on (List.Nodup.of_map _ named)).mp named block member other member' ?_
  rcases first with h | h | h <;> rcases second with h' | h' | h' <;> rw [h] at h' <;> simp_all

omit [SequenceHashing H] in
/-- A commit within the chain does not panic. -/
theorem commitBlocks_isSome {hashes : List H} {ids : List BlockId} (ok : store.Ok (Holding.guards ids + held))
    (within : ids.length ≤ hashes.length) : (BlockPool.commitBlocks store hashes ids).isSome := by
  induction ids generalizing store hashes held with
  | nil => simp [BlockPool.commitBlocks]
  | cons id ids ih =>
    cases hashes with
    | nil => simp at within
    | cons hash hashes =>
      have split : (Holding.guards (id :: ids) : Holding H) = Holding.guards [id] + Holding.guards ids := by
        rw [← Holding.guards_append]
        rfl
      rw [split, add_assoc] at ok
      have staged := BlockStore.transfers_staged store id hash _ ok
      obtain ⟨next, block, register⟩ := staged.register_isSome hash
      have after := BlockStore.transfers_register register _ staged
      rw [add_left_comm] at after
      have rest := ih after (by simpa using within)
      obtain ⟨⟨last, blocks⟩, more⟩ := Option.isSome_iff_exists.mp rest
      simp only [BlockPool.commitBlocks, register, more, Option.isSome_some]

end Store

/-- The reuse cap of the call's policy, in blocks. -/
def ResolveCall.cap (call : ResolveCall) (blockSize : Nat) : Nat :=
  if call.policy.fullPages then call.prompt.length / blockSize else (call.prompt.length - 1) / blockSize

/-- A probe of the call's chain that holds a leading part of it in order. -/
structure ProbeOk (call : ResolveCall) (blockSize cap : Nat) (probe : PrefixProbe H) : Prop where
  chain : probe.seqHashes = sequenceHashes blockSize call.salt call.prompt
  cacheable : probe.cacheable = cap
  names : probe.held.map ImmutableBlock.hash = probe.seqHashes.take probe.held.length

def System.HoldsProbe (s : System H) (p : Nat) (Fact : PrefixProbe H → Prop) : Prop :=
  ∃ probe, s.holders[p]? = some (.probe probe) ∧ Fact probe

def System.HoldsReservation (s : System H) (r count : Nat) : Prop :=
  ∃ ids, s.holders[r]? = some (.reservation ids) ∧ ids.length ≤ count

namespace Resolve

/-- Before the commit: the probe holds what the GPU had. -/
def Probing (call : ResolveCall) (blockSize cap : Nat) (Fact : PrefixProbe H → Prop)
    (probe : PrefixProbe H) : Prop :=
  ProbeOk call blockSize cap probe ∧ probe.held.length = probe.gpuHit ∧ Fact probe

/-- What each phase knows of its probe and its reservation. -/
def Ready (call : ResolveCall) (blockSize : Nat) (w : Resolve H) : Prop :=
  match w.phase with
  | .start => True
  | .probed p => w.system.HoldsProbe p
      (Probing call blockSize ((call.prompt.length - 1) / blockSize) fun _ => True)
  | .capped p => w.system.HoldsProbe p (Probing call blockSize (call.cap blockSize) fun _ => True)
  | .polling p => w.system.HoldsProbe p (Probing call blockSize (call.cap blockSize) fun _ => True)
  | .pausing p => w.system.HoldsProbe p (Probing call blockSize (call.cap blockSize) fun _ => True)
  | .querying p q => w.system.HoldsProbe p (Probing call blockSize (call.cap blockSize) fun probe =>
      ∀ blocks, w.queries[q]? = some (some (.hit blocks)) → blocks ≤ probe.cpuQueryHashes.length)
  | .reserving p hit => w.system.HoldsProbe p (Probing call blockSize (call.cap blockSize) fun probe =>
      hit.blocks ≤ probe.cpuQueryHashes.length)
  | .deciding p hit => w.system.HoldsProbe p (Probing call blockSize (call.cap blockSize) fun probe =>
      hit.blocks ≤ probe.cpuQueryHashes.length)
  | .reserved p _ r => w.system.HoldsProbe p (Probing call blockSize (call.cap blockSize) fun probe =>
      w.system.HoldsReservation r probe.cpuQueryHashes.length)
  | .loading p => w.system.HoldsProbe p (Probing call blockSize (call.cap blockSize) fun probe =>
      ∀ r state, w.load = some (r, state) → state ≠ .panicked →
        w.system.HoldsReservation r probe.cpuQueryHashes.length)
  | .finishing p => w.system.HoldsProbe p (ProbeOk call blockSize (call.cap blockSize))
  | .discarding p => w.system.HoldsProbe p fun _ => True
  | .returned result =>
    match result.hold with
    | none => result.hitTokens = 0
    | some p => w.system.HoldsProbe p fun probe => ProbeOk call blockSize (call.cap blockSize) probe ∧
        result.hitTokens = blockSize * probe.held.length ∧ probe.held.length ≤ call.cap blockSize

/-- No load task exists before the resolve has a reservation to give it. -/
def Unloaded (w : Resolve H) : Prop :=
  match w.phase with
  | .loading _ => True
  | .finishing _ => True
  | .discarding _ => True
  | .returned _ => True
  | _ => w.load = none

structure Delivering (call : ResolveCall) (blockSize : Nat) (w : Resolve H) : Prop where
  ok : w.system.Ok
  size : w.system.pool.blockSize = blockSize
  ready : w.Ready call blockSize
  load : ∀ r state, w.load = some (r, state) → state ≠ .panicked → ∃ count, w.system.HoldsReservation r count
  unloaded : w.Unloaded

/-- A tier whose hits cover no more than it was asked for. -/
def honest (w : Resolve H) : Turn → Bool
  | .replies q (.hit blocks) =>
    match w.phase with
    | .querying p other =>
      match w.probeAt p with
      | some probe => other != q || decide (blocks ≤ probe.cpuQueryHashes.length)
      | none => true
    | _ => true
  | _ => true

omit [DecidableEq H] [SequenceHashing H] in
theorem honest_hit {w : Resolve H} {p q blocks : Nat} {probe : PrefixProbe H}
    (honest : w.honest (.replies q (.hit blocks)) = true) (phase : w.phase = .querying p q)
    (atP : w.system.holders[p]? = some (.probe probe)) : blocks ≤ probe.cpuQueryHashes.length := by
  have found : w.probeAt p = some probe := by simp [probeAt, atP]
  simpa [Resolve.honest, phase, found] using honest

end Resolve

section Transport

variable {s s' : System H} {a : Action} {p r count : Nat} {Fact Fact' : PrefixProbe H → Prop}

theorem System.HoldsProbe.moved (holds : s.HoldsProbe p Fact) (moved : Moved s a s') (apart : p ∉ a.names)
    (weaker : ∀ probe, Fact probe → Fact' probe) : s'.HoldsProbe p Fact' := by
  obtain ⟨probe, atP, fact⟩ := holds
  exact ⟨probe, moved.holder_keeps atP (by simp) apart, weaker probe fact⟩

theorem System.HoldsReservation.moved (holds : s.HoldsReservation r count) (moved : Moved s a s')
    (apart : r ∉ a.names) : s'.HoldsReservation r count := by
  obtain ⟨ids, atR, within⟩ := holds
  exact ⟨ids, moved.holder_keeps atR (by simp) apart, within⟩

omit [DecidableEq H] [SequenceHashing H] in
theorem System.HoldsProbe.imp (holds : s.HoldsProbe p Fact) (weaker : ∀ probe, Fact probe → Fact' probe) :
    s.HoldsProbe p Fact' := by
  obtain ⟨probe, atP, fact⟩ := holds
  exact ⟨probe, atP, weaker probe fact⟩

omit [DecidableEq H] [SequenceHashing H] in
theorem System.HoldsProbe.ne (holds : s.HoldsProbe p Fact)
    (reserved : s.HoldsReservation r count) : p ≠ r := by
  rintro rfl
  obtain ⟨probe, atP, -⟩ := holds
  obtain ⟨ids, atR, -⟩ := reserved
  simp [atP] at atR

end Transport

namespace Resolve

variable {call : ResolveCall} {blockSize : Nat} {w w' : Resolve H} {turn : Turn}
  {a : Action} {system : System H}

theorem Delivering.stay (d : Delivering call blockSize w) (same : w'.system = w.system)
    (ready : w'.Ready call blockSize)
    (load : ∀ r state, w'.load = some (r, state) → state ≠ .panicked →
      ∃ count, w.system.HoldsReservation r count)
    (unloaded : w'.Unloaded) : Delivering call blockSize w' :=
  ⟨same ▸ d.ok, same ▸ d.size, ready, same ▸ load, unloaded⟩

theorem Delivering.move (d : Delivering call blockSize w) (went : w.system.step a = some system)
    (same : w'.system = system) (ready : w'.Ready call blockSize)
    (load : ∀ r state, w'.load = some (r, state) → state ≠ .panicked →
      r ∉ a.names ∧ ∃ count, w.system.HoldsReservation r count)
    (unloaded : w'.Unloaded) : Delivering call blockSize w' := by
  subst same
  have moved := System.step_moved went
  refine ⟨d.ok.moved moved, moved.blockSize_eq.trans d.size, ready, ?_, unloaded⟩
  intro r state atLoad alive
  obtain ⟨apart, count, reserved⟩ := load r state atLoad alive
  exact ⟨count, reserved.moved moved apart⟩

/-- Others move and what the resolve owns stays. -/
theorem Ready.moved (ready : w.Ready call blockSize) (moved : Moved w.system a w'.system)
    (phase : w'.phase = w.phase)
    (queries : w'.queries = w.queries) (load : w'.load = w.load) (owned : ∀ k ∈ w.phase.owns, k ∉ a.names)
    (loaded : ∀ r state, w.load = some (r, state) → r ∉ a.names) : w'.Ready call blockSize := by
  unfold Ready at ready ⊢
  rw [phase]
  cases here : w.phase with
  | start => trivial
  | returned result =>
    rw [here] at ready owned
    obtain ⟨hitTokens, hold⟩ := result
    cases hold with
    | none => exact ready
    | some p => exact System.HoldsProbe.moved ready moved (owned p (by simp [Phase.owns])) fun _ fact => fact
  | querying p q =>
    rw [here] at ready owned
    rw [queries]
    exact System.HoldsProbe.moved ready moved (owned p (by simp [Phase.owns])) fun _ fact => fact
  | reserved p hit r =>
    rw [here] at ready owned
    refine System.HoldsProbe.moved ready moved (owned p (by simp [Phase.owns])) ?_
    rintro probe ⟨ok, gpu, reserved⟩
    exact ⟨ok, gpu, reserved.moved moved (owned r (by simp [Phase.owns]))⟩
  | loading p =>
    rw [here] at ready owned
    refine System.HoldsProbe.moved ready moved (owned p (by simp [Phase.owns])) ?_
    rintro probe ⟨ok, gpu, reserved⟩
    refine ⟨ok, gpu, ?_⟩
    intro r state atLoad alive
    rw [load] at atLoad
    exact (reserved r state atLoad alive).moved moved (loaded r state atLoad)
  | _ =>
    rw [here] at ready owned
    exact System.HoldsProbe.moved ready moved (owned _ (by simp [Phase.owns])) fun _ fact => fact

theorem Ready.probed (went : w.system.step (.probe call.prompt call.salt) = some system) :
    Ready call w.system.pool.blockSize { w with system, phase := .probed w.system.holders.length } := by
  cases System.step_moved went with
  | probe prompt salt =>
    refine ⟨(w.system.pool.probePrefix call.prompt call.salt).2, by simp, ⟨rfl, rfl, ?_⟩, rfl, trivial⟩
    exact (BlockStore.matchBlocks_hashes _ _).1

theorem Ready.committed {p r : Nat} (d : Delivering call blockSize w) (phase : w.phase = .loading p)
    (went : w.system.step (.commit p r) = some system) :
    Ready call blockSize { w with system, phase := .finishing p, load := none } := by
  have ready := d.ready
  simp only [Ready, phase] at ready
  obtain ⟨probe, atP, ok, gpu, -⟩ := ready
  cases System.step_moved went with
  | @commit _ _ probe' after ids pool atP' atR done =>
    obtain ⟨⟩ : Holder.probe probe = .probe probe' := Option.some.inj (atP.symm.trans atP')
    obtain ⟨store, blocks, commit, rfl, rfl⟩ := BlockPool.commitLoadedBlocks_cases done
    obtain ⟨idsOf, hashes, within⟩ := BlockPool.commitBlocks_shape commit
    have inside := (List.getElem?_eq_some_iff.mp atP).1
    have count : blocks.length = ids.length := by
      rw [← idsOf, List.length_map]
    refine ⟨{ probe with held := probe.held ++ blocks }, by simp [inside], ok.chain, ok.cacheable, ?_⟩
    simp only [List.map_append, List.length_append]
    rw [ok.names, hashes, count, gpu, ← List.take_add]

theorem Ready.returned {p : Nat} {probe : PrefixProbe H} (d : Delivering call blockSize w)
    (phase : w.phase = .finishing p)
    (atP : w.system.holders[p]? = some (.probe probe))
    (went : w.system.step (.truncate p (min probe.held.length probe.cacheable)) = some system) :
    Ready call blockSize
      { w with
        system
        phase := .returned ⟨min probe.held.length probe.cacheable * w.system.pool.blockSize, some p⟩ } := by
  have ready := d.ready
  simp only [Ready, phase] at ready
  obtain ⟨_, atP', ok⟩ := ready
  obtain ⟨⟩ : Holder.probe probe = .probe _ := Option.some.inj (atP.symm.trans atP')
  have inside := (List.getElem?_eq_some_iff.mp atP).1
  cases System.step_moved went with
  | @truncate _ _ probe' atP' =>
    obtain ⟨⟩ : Holder.probe probe = .probe probe' := Option.some.inj (atP.symm.trans atP')
    set hit := min probe.held.length probe.cacheable with hit_eq
    have length : (probe.held.take hit).length = hit := by
      rw [List.length_take]
      omega
    refine ⟨{ probe with held := probe.held.take hit }, by simp [System.setHolder, System.setStore, inside],
      ⟨ok.chain, ok.cacheable, ?_⟩, ?_, ?_⟩
    · simp only [length]
      rw [List.map_take, ok.names, List.take_take]
      congr 1
      omega
    · simp only [length]
      rw [d.size, Nat.mul_comm]
    · simp only [length]
      have cap := ok.cacheable
      omega

/-- The resolve lets go of its probe. -/
theorem Delivering.dropProbe {p : Nat} (d : Delivering call blockSize w) {Fact : PrefixProbe H → Prop}
    (held : w.system.HoldsProbe p Fact) (went : w.system.step (.drop p) = some system) :
    Delivering call blockSize { w with system, phase := .returned .none } := by
  refine d.move went rfl rfl ?_ trivial
  intro r state atLoad alive
  obtain ⟨count, reserved⟩ := d.load r state atLoad alive
  refine ⟨?_, count, reserved⟩
  simpa [Action.names] using (held.ne reserved).symm

/-- A reservation goes back while the probe stays. -/
theorem Delivering.dropReservation {p r count : Nat} (d : Delivering call blockSize w)
    {Fact : PrefixProbe H → Prop}
    (held : w.system.HoldsProbe p Fact) (reserved : w.system.HoldsReservation r count)
    (went : w.system.step (.drop r) = some system) (same : w'.system = system)
    (empty : ∀ r state, w'.load = some (r, state) → state = .panicked) (unloaded : w'.Unloaded)
    (ready : w'.system.HoldsProbe p Fact → w'.Ready call blockSize) : Delivering call blockSize w' := by
  refine d.move went same (ready ?_) ?_ unloaded
  · rw [same]
    exact held.moved (System.step_moved went)
      (by simpa [Action.names] using held.ne reserved) fun _ fact => fact
  · exact fun r state atLoad alive => absurd (empty r state atLoad) alive

theorem Delivering.detached {w'' : Resolve H} {p : Nat} (d : Delivering call blockSize w)
    (phase : w.phase = .loading p)
    (detached : w.detach = some w') (same : w''.system = w'.system) (load : w''.load = w'.load)
    (unloaded : w''.Unloaded)
    (ready : w''.system.HoldsProbe p (ProbeOk call blockSize (call.cap blockSize)) →
      w''.Ready call blockSize) :
    Delivering call blockSize w'' := by
  have held := d.ready
  simp only [Ready, phase] at held
  have probeOk := held.imp fun _ fact => fact.1
  rcases detach_cases detached with ⟨r, -, rfl⟩ | ⟨r, -, rfl⟩ | ⟨r, state, system, settled, which, went, rfl⟩
  · exact d.stay same (ready (same ▸ probeOk)) (load ▸ d.load) unloaded
  · exact d.stay same (ready (same ▸ probeOk)) (by simp [load]) unloaded
  · obtain ⟨count, reserved⟩ := d.load r state settled (by rcases which with rfl | rfl <;> simp)
    exact d.dropReservation probeOk reserved went same (by simp [load]) unloaded ready

theorem Delivering.declines {p : Nat} {hit : LeasedBlocks} (d : Delivering call blockSize w)
    (phase : w.phase = .deciding p hit) (went : w.system.step a = some system) (plain : a.names = []) :
    Delivering call blockSize ({ w with system }.declines p hit) := by
  have ready := d.ready
  have unloaded := d.unloaded
  simp only [Ready, phase] at ready
  simp only [Unloaded, phase] at unloaded
  have held : system.HoldsProbe p (Probing call blockSize (call.cap blockSize) fun _ => True) :=
    ready.moved (System.step_moved went) (by simp [plain]) fun _ fact => ⟨fact.1, fact.2.1, trivial⟩
  have none : ({ w with system }.declines p hit).load = none := unloaded
  refine d.move went rfl ?_ (by simp [none]) ?_
  · unfold Ready Resolve.declines
    cases w.expired with
    | true => exact held.imp fun _ fact => fact.1
    | false => exact held
  · unfold Unloaded Resolve.declines
    cases w.expired with
    | true => trivial
    | false => exact unloaded

theorem Delivering.turned (d : Delivering call blockSize w) (mine : w.GateMine)
    (honest : w.honest turn = true)
    (turned : Turned call w turn w') : Delivering call blockSize w' := by
  have ready := d.ready
  have loaded := d.load
  have unloaded := d.unloaded
  cases turned with
  | pool apart went =>
    have apart := (excludes_apart apart).1
    refine d.move went rfl (ready.moved (System.step_moved went) rfl rfl rfl ?_ ?_) ?_ unloaded
    · exact fun k owned named => (apart k named).1 owned
    · exact fun r state atLoad named => (apart r named).2 state atLoad
    · exact fun r state atLoad alive =>
        ⟨fun named => (apart r named).2 state atLoad, loaded r state atLoad alive⟩
  | expires => exact d.stay rfl ready loaded unloaded
  | @replies q reply running =>
    refine d.stay rfl ?_ loaded unloaded
    unfold Ready at ready ⊢
    cases phase : w.phase with
    | querying p other =>
      rw [phase] at ready
      obtain ⟨probe, atP, ok, gpu, fits⟩ := ready
      refine ⟨probe, atP, ok, gpu, ?_⟩
      intro blocks settled
      by_cases same : q = other
      · subst same
        have inside := (List.getElem?_eq_some_iff.mp running).1
        rw [List.getElem?_set_self inside, Option.some.injEq, Option.some.injEq] at settled
        subst settled
        exact honest_hit honest phase atP
      · rw [List.getElem?_set_ne same] at settled
        exact fits blocks settled
    | _ =>
      rw [phase] at ready
      exact ready
  | @settlesKept r result running joins settled =>
    obtain ⟨p, phase⟩ : ∃ p, w.phase = .loading p := by
      unfold Resolve.joins at joins
      split at joins
      · exact ⟨_, ‹_›⟩
      · simp at joins
    simp only [Ready, phase] at ready
    obtain ⟨probe, atP, ok, gpu, fits⟩ := ready
    refine d.stay rfl ?_ ?_ (by simp [Unloaded, phase])
    · simp only [Ready, phase]
      refine ⟨probe, atP, ok, gpu, ?_⟩
      rintro _ _ ⟨⟩ alive
      exact fits r .running running (by simp)
    · rintro _ _ ⟨⟩ alive
      exact loaded r .running running (by simp)
  | @settlesPanicked r system running joins went =>
    obtain ⟨p, phase⟩ : ∃ p, w.phase = .loading p := by
      unfold Resolve.joins at joins
      split at joins
      · exact ⟨_, ‹_›⟩
      · simp at joins
    simp only [Ready, phase] at ready
    obtain ⟨count, reserved⟩ := loaded r .running running (by simp)
    have held := ready.imp fun _ fact =>
        (⟨fact.1, fact.2.1⟩ : ProbeOk call blockSize (call.cap blockSize) _ ∧ _ = _)
    refine d.dropReservation held reserved went rfl (by simp) (by simp [Unloaded, phase]) ?_
    intro held
    simp only [Ready, phase]
    refine held.imp fun _ fact => ⟨fact.1, fact.2, by simp⟩
  | @settlesAlone r result system running alone went =>
    obtain ⟨count, reserved⟩ := loaded r .running running (by simp)
    refine d.move went rfl ?_ (by simp) ?_
    · unfold Ready at ready ⊢
      unfold Unloaded at unloaded
      have moved := System.step_moved went
      cases phase : w.phase with
      | loading p => simp [Resolve.joins, phase] at alone
      | finishing p =>
        rw [phase] at ready
        exact System.HoldsProbe.moved ready moved
          (by simpa [Action.names] using System.HoldsProbe.ne ready reserved)
          fun _ fact => fact
      | discarding p =>
        rw [phase] at ready
        exact System.HoldsProbe.moved ready moved
          (by simpa [Action.names] using System.HoldsProbe.ne ready reserved)
          fun _ fact => fact
      | returned result =>
        rw [phase] at ready
        obtain ⟨hitTokens, hold⟩ := result
        cases hold with
        | none => exact ready
        | some p =>
          exact System.HoldsProbe.moved ready moved
            (by simpa [Action.names] using System.HoldsProbe.ne ready reserved)
            fun _ fact => fact
      | _ => simp [phase, running] at unloaded
    · unfold Unloaded
      split <;> simp
  | beginCancelled phase => exact d.stay rfl rfl loaded trivial
  | begin phase went =>
    simp only [Unloaded, phase] at unloaded
    refine d.move went rfl ?_ (by simp [unloaded]) unloaded
    have size := d.size
    subst size
    exact .probed went
  | @capFull p system phase full went =>
    simp only [Unloaded, phase] at unloaded
    simp only [Ready, phase] at ready
    refine d.move went rfl ?_ (by simp [unloaded]) unloaded
    obtain ⟨probe, atP, ok, gpu, -⟩ := ready
    have inside := (List.getElem?_eq_some_iff.mp atP).1
    cases System.step_moved went with
    | @includeFinal _ probe' atP' =>
      obtain ⟨⟩ : Holder.probe probe = .probe probe' := Option.some.inj (atP.symm.trans atP')
      refine ⟨probe.includeFinalBlock, by simp [System.setHolder, inside],
        ⟨ok.chain, ?_, ok.names⟩, gpu, trivial⟩
      simp only [PrefixProbe.includeFinalBlock, ok.chain, sequenceHashes_length,
        ResolveCall.cap, full, if_true]
  | cap phase partly =>
    simp only [Unloaded, phase] at unloaded
    simp only [Ready, phase] at ready
    refine d.stay rfl ?_ loaded unloaded
    refine ready.imp ?_
    rintro probe ⟨ok, gpu, -⟩
    exact ⟨⟨ok.chain, by simp [ok.cacheable, ResolveCall.cap, partly], ok.names⟩, gpu, trivial⟩
  | look phase =>
    simp only [Unloaded, phase] at unloaded
    simp only [Ready, phase] at ready
    exact d.stay rfl ready loaded unloaded
  | lookNone phase =>
    simp only [Ready, phase] at ready
    exact d.stay rfl (ready.imp fun _ fact => fact.1) loaded trivial
  | pollCancelled phase =>
    simp only [Ready, phase] at ready
    exact d.stay rfl (ready.imp fun _ _ => trivial) loaded trivial
  | poll phase =>
    simp only [Unloaded, phase] at unloaded
    simp only [Ready, phase] at ready
    refine d.stay rfl (ready.imp ?_) loaded unloaded
    rintro probe ⟨ok, gpu, -⟩
    exact ⟨ok, gpu, by simp⟩
  | heard phase settled leaseless next =>
    simp only [Unloaded, phase] at unloaded
    simp only [Ready, phase] at ready
    rcases next with rfl | rfl
    · exact d.stay rfl (ready.imp fun _ fact => fact.1) loaded trivial
    · exact d.stay rfl (ready.imp fun _ fact => ⟨fact.1, fact.2.1, trivial⟩) loaded unloaded
  | heardHit phase settled =>
    simp only [Unloaded, phase] at unloaded
    simp only [Ready, phase] at ready
    exact d.stay rfl (ready.imp fun _ fact => ⟨fact.1, fact.2.1, fact.2.2 _ settled⟩) loaded unloaded
  | queryElapsed phase =>
    simp only [Ready, phase] at ready
    exact d.stay rfl (ready.imp fun _ fact => fact.1) loaded trivial
  | wakes phase =>
    simp only [Unloaded, phase] at unloaded
    simp only [Ready, phase] at ready
    exact d.stay rfl ready loaded unloaded
  | readAvailable phase went =>
    simp only [Unloaded, phase] at unloaded
    simp only [Ready, phase] at ready
    refine d.move went rfl ?_ (by simp [unloaded]) unloaded
    exact ready.moved (System.step_moved went) (by simp [Action.names]) fun _ fact => fact
  | decide phase went granted =>
    simp only [Unloaded, phase] at unloaded
    refine d.move went rfl ?_ (by simp [unloaded]) (by simpa [Unloaded, phase] using unloaded)
    exact ready.moved (System.step_moved went) rfl rfl rfl (by simp [Action.names]) (by simp [Action.names])
  | decideRefused phase went => exact d.declines phase went rfl
  | @take p hit system phase went more =>
    simp only [Unloaded, phase] at unloaded
    simp only [Ready, phase] at ready
    refine d.move went rfl ?_ (by simp [unloaded]) unloaded
    refine ready.moved (System.step_moved went) (by simp [Action.names]) ?_
    rintro probe ⟨ok, gpu, fits⟩
    refine ⟨ok, gpu, ?_⟩
    cases System.step_moved went with
    | reserveFailed gate => exact absurd rfl more
    | @reserveTake count store ids gate alloc =>
      have length := BlockStore.allocateAtomic_length alloc
      rcases mine p hit phase with ⟨available, reading⟩ | granted
      · simp [gate] at reading
      · rw [gate] at granted
        cases granted
        exact ⟨ids, by simp, by omega⟩
  | takeFailed phase went => exact d.declines phase went rfl
  | proceedCancelled phase went =>
    simp only [Unloaded, phase] at unloaded
    simp only [Ready, phase] at ready
    have reserved := ready
    obtain ⟨probe, -, -, -, reserved⟩ := reserved
    exact d.dropReservation ready reserved went rfl (by simp [unloaded]) trivial fun held =>
      held.imp fun _ _ => trivial
  | proceed phase =>
    simp only [Ready, phase] at ready
    obtain ⟨probe, atP, ok, gpu, reserved⟩ := ready
    refine d.stay rfl ⟨probe, atP, ok, gpu, ?_⟩ ?_ trivial
    · rintro _ _ ⟨⟩ alive
      exact reserved
    · rintro _ _ ⟨⟩ alive
      exact ⟨_, reserved⟩
  | joinedLoaded phase settled went => exact d.move went rfl (.committed d phase went) (by simp) trivial
  | joinedFailed phase settled went =>
    simp only [Ready, phase] at ready
    obtain ⟨count, reserved⟩ := loaded _ _ settled (by simp)
    exact d.dropReservation ready reserved went rfl (by simp) trivial fun held =>
      held.imp fun _ fact => fact.1
  | joinedPanicked phase settled =>
    simp only [Ready, phase] at ready
    exact d.stay rfl (ready.imp fun _ fact => fact.1) (by simp) trivial
  | loadElapsed phase detached => exact d.detached phase detached rfl rfl trivial fun held => held
  | finishNone phase went =>
    simp only [Ready, phase] at ready
    exact d.dropProbe ready went
  | finish phase atP went =>
    simp only [Ready, phase] at ready
    refine d.move went rfl (.returned d phase atP went) ?_ trivial
    intro r state atLoad alive
    obtain ⟨count, reserved⟩ := loaded r state atLoad alive
    exact ⟨by simpa [Action.names] using (ready.ne reserved).symm, count, reserved⟩
  | discard phase went =>
    simp only [Ready, phase] at ready
    exact d.dropProbe ready went
  | dropStart phase => exact d.stay rfl rfl loaded trivial
  | dropQuerying phase =>
    simp only [Ready, phase] at ready
    exact d.stay rfl (ready.imp fun _ _ => trivial) loaded trivial
  | dropPausing phase =>
    simp only [Ready, phase] at ready
    exact d.stay rfl (ready.imp fun _ _ => trivial) loaded trivial
  | dropLoading phase detached =>
    exact d.detached phase detached rfl rfl trivial fun held => held.imp fun _ _ => trivial
  | dropHold phase went =>
    simp only [Ready, phase] at ready
    exact d.dropProbe ready went

end Resolve

/-- The blocks a hold pins. -/
def System.pinned (s : System H) (hold : Option Nat) : List (ImmutableBlock H) :=
  match hold.bind fun p => s.holders[p]? with
  | some (.probe probe) => probe.held
  | _ => []

/-- What a returned prefix promises: its hold pins the first blocks of the
prompt's chain, as many as it says and no more than the cap. -/
structure PrefixPinned (call : ResolveCall) (blockSize : Nat) (s : System H) (result : KvPrefix) : Prop where
  counted : result.hitTokens = blockSize * (s.pinned result.hold).length
  capped : (s.pinned result.hold).length ≤ call.cap blockSize
  registered : ∀ (i : Nat) (block : ImmutableBlock H), (s.pinned result.hold)[i]? = some block →
    (sequenceHashes blockSize call.salt call.prompt)[i]? = some block.hash ∧
      (s.pool.store.slots block.blockId).RegisteredAs block.hash ∧
        (s.pool.store.activeByHash block.hash).isSome

/-- What a fresh request with the call's tokens and scope then matches. -/
def System.matches (s : System H) (call : ResolveCall) (maxOutputTokens tokens : Nat) : Prop :=
  ∃ seq store count,
    (s.pool.newRequest call.prompt maxOutputTokens call.salt).seq.matchAndAddPrefix s.pool.store =
      .ok (seq, store, count) ∧
      tokens ≤ count * s.pool.blockSize

section Results

variable {call : ResolveCall} {blockSize : Nat} {s : System H} {w : Resolve H} {result : KvPrefix}

theorem Resolve.Delivering.pinned (d : w.Delivering call blockSize) (phase : w.phase = .returned result) :
    PrefixPinned call blockSize w.system result := by
  have ready := d.ready
  obtain ⟨hitTokens, hold⟩ := result
  simp only [Resolve.Ready, phase] at ready
  cases hold with
  | none => exact ⟨ready, Nat.zero_le _, by simp [System.pinned]⟩
  | some p =>
    obtain ⟨probe, atP, ok, counted, capped⟩ := ready
    have held : w.system.pinned (some p) = probe.held := by simp [System.pinned, atP]
    refine ⟨by rw [held]; exact counted, by rw [held]; exact capped, ?_⟩
    intro i block atI
    simp only [held] at atI
    have inside := (List.getElem?_eq_some_iff.mp atI).1
    have name := congrArg (fun hashes : List H => hashes[i]?) ok.names
    simp only [List.getElem?_map, atI, Option.map_some, List.getElem?_take_of_lt inside, ok.chain] at name
    obtain ⟨rest, owned⟩ := d.ok.frame_at atP
    obtain ⟨others, split⟩ := Holding.blocks_mem (List.mem_of_getElem? atI)
    rw [Holder.holding, split, add_assoc] at owned
    obtain ⟨slot, primary, active⟩ := owned.slot_of_block
    refine ⟨name.symm, ?_, by simp [active]⟩
    rcases slot with primary | duplicate
    · exact Or.inl primary
    · exact Or.inr (Or.inl duplicate)

/-- A match of the chain reaches every leading block that is pinned. -/
theorem System.Ok.matches_pinned (positional : Positional H) (ok : s.Ok) (maxOutputTokens : Nat) {n : Nat}
    (capped : n ≤ (call.prompt.length - 1) / s.pool.blockSize)
    (active : ∀ i < n, ∀ hash, (sequenceHashes s.pool.blockSize call.salt call.prompt)[i]? = some hash →
      (s.pool.store.activeByHash hash).isSome) :
    s.matches call maxOutputTokens (s.pool.blockSize * n) := by
  set hashes : List H := sequenceHashes s.pool.blockSize call.salt call.prompt with hashes_eq
  have covers := BlockStore.matchBlocks_covers (hashes.take n) (hashes.drop n) s.pool.store (by
    intro hash member
    obtain ⟨i, atI⟩ := List.mem_iff_getElem?.mp member
    have early : i < n := by
      have inside := (List.getElem?_eq_some_iff.mp atI).1
      rw [List.length_take] at inside
      omega
    rw [List.getElem?_take_of_lt early] at atI
    exact active i early hash atI)
  rw [List.take_append_drop] at covers
  have within : n ≤ hashes.length := by
    rw [hashes_eq, sequenceHashes_length]
    exact capped.trans (Nat.div_le_div_right (Nat.sub_le _ _))
  have distinct := matchBlocks_nodup ok.owned (positional s.pool.blockSize call.salt call.prompt)
  rw [← hashes_eq] at distinct
  rw [List.length_take_of_le within] at covers
  have matched : ∃ seq' store',
    (s.pool.newRequest call.prompt maxOutputTokens call.salt).seq.matchAndAddPrefix s.pool.store =
      .ok (seq', store',
        ((s.pool.store.matchBlocks hashes).2.take ((call.prompt.length - 1) / s.pool.blockSize)).length) := by
    refine SchedulableSequence.matchAndAddPrefix_ok rfl rfl ?_
    rw [List.map_take]
    exact distinct.sublist (List.take_sublist _ _)
  obtain ⟨seq, store, matched⟩ := matched
  refine ⟨seq, store, _, matched, ?_⟩
  rw [Nat.mul_comm, List.length_take]
  exact Nat.mul_le_mul_right _ (le_min capped covers)

theorem ResolveReach.delivering (ok : s.Ok) (reach : ResolveReach Resolve.honest call s w) :
    w.Delivering call s.pool.blockSize := by
  induction reach with
  | start => exact ⟨ok, rfl, trivial, by simp [Resolve.new], rfl⟩
  | next before allowed went ih => exact ih.turned before.leases.2 allowed (Resolve.step_turned went)

/-- Whatever a resolve returns is pinned, as counted and within the cap; its
commit stays inside the chain; and while the hold lives, whatever the others
do, a fresh request matches at least as much. -/
theorem ResolveReach.prefix_delivered (positional : Positional H) {numBlocks : Nat} {fresh : System H}
    {actions : List Action} (pos : 0 < blockSize) (made : System.new blockSize numBlocks = some fresh)
    (ran : fresh.run actions = some s) (reach : ResolveReach Resolve.honest call s w) :
    (∀ result, w.phase = .returned result → PrefixPinned call blockSize w.system result ∧
      (call.policy.fullPages = false →
        ∀ maxOutputTokens, w.system.matches call maxOutputTokens result.hitTokens)) ∧
    ∀ p r probe ids, w.phase = .loading p → w.load = some (r, .loaded) →
      w.system.holders[p]? = some (.probe probe) → w.system.holders[r]? = some (.reservation ids) →
      probe.gpuHit + ids.length ≤ probe.seqHashes.length ∧
        (w.system.pool.commitLoadedBlocks probe ids).isSome := by
  have size : fresh.pool.blockSize = blockSize := by
    obtain ⟨_, _, _, _, -, -, rfl⟩ := System.new_cases made
    rfl
  have ok : s.Ok := (System.Ok.new pos made).run ran
  have d := reach.delivering ok
  rw [System.run_blockSize ran, size] at d
  refine ⟨?_, ?_⟩
  · intro result phase
    have pinned := d.pinned phase
    refine ⟨pinned, ?_⟩
    intro partly maxOutputTokens
    have capped := pinned.capped
    simp only [ResolveCall.cap, partly, Bool.false_eq_true, if_false, ← d.size] at capped
    rw [pinned.counted, ← d.size]
    refine d.ok.matches_pinned positional maxOutputTokens capped ?_
    intro i early hash atI
    obtain ⟨name, -, active⟩ := pinned.registered i _ (List.getElem?_eq_getElem early)
    rw [d.size, name] at atI
    cases atI
    exact active
  · intro p r probe ids phase settled atP atR
    have ready := d.ready
    simp only [Resolve.Ready, phase] at ready
    obtain ⟨_, atP', probeOk, gpu, fits⟩ := ready
    obtain ⟨⟩ : Holder.probe probe = .probe _ := Option.some.inj (atP.symm.trans atP')
    obtain ⟨_, atR', within⟩ := fits r .loaded settled (by simp)
    obtain ⟨⟩ : Holder.reservation ids = .reservation _ := Option.some.inj (atR.symm.trans atR')
    have bound : probe.gpuHit + ids.length ≤ probe.seqHashes.length := by
      have names := congrArg List.length probeOk.names
      simp only [List.length_map, List.length_take] at names
      unfold PrefixProbe.cpuQueryHashes at within
      split at within
      · simp only [List.length_nil] at within
        omega
      · rw [List.length_drop, List.length_take] at within
        omega
    refine ⟨bound, ?_⟩
    obtain ⟨rest, owned⟩ := d.ok.frame_at atR
    have room : ids.length ≤ (probe.seqHashes.drop probe.gpuHit).length := by
      rw [List.length_drop]
      omega
    have commit := commitBlocks_isSome owned room
    obtain ⟨⟨store, blocks⟩, done⟩ := Option.isSome_iff_exists.mp commit
    simp only [BlockPool.commitLoadedBlocks, done, Option.isSome_some]

end Results

/-- Two blocks restored from the tier and registered. -/
def restoredPrefix : Option (Resolve ChainKey) :=
  (System.new 2 6).bind fun s => (Resolve.new s).run Resolve.honest
    ⟨[1, 2, 3, 4, 5], none, ⟨false, false⟩, true⟩
    [.begin false, .cap, .look, .poll false, .replies 0 (.hit 2), .heard, .readAvailable, .decide,
      .take, .proceed false,
      .settles .loaded, .loadJoined, .finish, .pool .evictInactive]

theorem ResolveReach.prefix_delivered_restored :
    ∃ (s : System ChainKey) (w : Resolve ChainKey),
      ResolveReach Resolve.honest ⟨[1, 2, 3, 4, 5], none, ⟨false, false⟩, true⟩ s w ∧
        w.phase = .returned ⟨4, some 1⟩ ∧
        PrefixPinned ⟨[1, 2, 3, 4, 5], none, ⟨false, false⟩, true⟩ 2 w.system ⟨4, some 1⟩ ∧
        w.system.matches ⟨[1, 2, 3, 4, 5], none, ⟨false, false⟩, true⟩ 3 4 := by
  have shape : restoredPrefix.map (fun w => w.phase) = some (.returned ⟨4, some 1⟩) := by decide +kernel
  obtain ⟨w, ran, phase⟩ := Option.map_eq_some_iff.mp shape
  obtain ⟨s, made, ran⟩ := Option.bind_eq_some_iff.mp ran
  have reach := ResolveReach.start.run ran
  obtain ⟨pinned, delivered⟩ :=
    (ResolveReach.prefix_delivered chainKey_positional (by decide) made
      (show s.run [] = some s from rfl) reach).1 _ phase
  exact ⟨s, w, reach, phase, pinned, delivered rfl 3⟩

end PegaInfer.KvStore
