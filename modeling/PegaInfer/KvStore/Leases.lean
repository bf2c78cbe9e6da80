import PegaInfer.KvStore.Resolve

namespace PegaInfer.KvStore

open PegaInfer.Kvbm

/-- The moves of `resolve_prefix` itself. -/
def Turn.own : Turn → Bool
  | .pool _ => false
  | .expires => false
  | .replies _ _ => false
  | .settles _ => false
  | .dropHold => false
  | _ => true

/-- A hit comes with a lease. -/
def TierReply.leased : TierReply → Bool
  | .hit _ => true
  | _ => false

namespace Resolve

variable {H : Type}

/-- The query settled with a lease. -/
def minted (w : Resolve H) (q : Nat) : Bool :=
  match w.queries[q]? with
  | some (some reply) => reply.leased
  | _ => false

/-- The lease the resolve has in hand: in the output it has yet to read, in
the guard, or taken for the load. -/
def holds (w : Resolve H) : Option Nat :=
  match w.phase with
  | .querying _ q => if w.minted q then some q else none
  | .reserving _ hit => some hit.lease
  | .deciding _ hit => some hit.lease
  | .reserved _ hit _ => some hit.lease
  | _ => none

/-- How often the tier was handed a lease, to load or to release. -/
def uses (w : Resolve H) (q : Nat) : Nat := (w.handed.map Prod.fst).count q

/-- The own moves left before a lease in hand is handed over. -/
def distance (w : Resolve H) : Nat :=
  match w.phase with
  | .querying _ _ => 5
  | .reserving _ _ => 4
  | .deciding _ _ =>
    match w.system.gate with
    | .granted _ => 2
    | _ => 3
  | .reserved _ _ _ => 1
  | _ => 0

/-- A lease is minted as often as it was handed over or is in hand. -/
def LeaseOk (w : Resolve H) : Prop :=
  ∀ q, w.uses q + (if w.holds = some q then 1 else 0) = if w.minted q then 1 else 0

/-- The turn at the gate is the resolve's own. -/
def GateMine (w : Resolve H) : Prop :=
  ∀ p hit, w.phase = .deciding p hit →
    (∃ available, w.system.gate = .reserving hit.blocks available) ∨ w.system.gate = .granted hit.blocks

theorem unread_uses (reply : TierReply) (q other : Nat) :
    ((reply.unread q).map Prod.fst).count other = if q = other ∧ reply.leased = true then 1 else 0 := by
  cases reply <;> simp [TierReply.unread, TierReply.leased, List.count_singleton]

theorem unread_count (w : Resolve H) (q other : Nat) :
    ((w.unread q).map Prod.fst).count other = if q = other ∧ w.minted q = true then 1 else 0 := by
  unfold unread minted
  cases w.queries[q]? with
  | none => simp
  | some settled =>
    cases settled with
    | none => simp
    | some reply => exact unread_uses reply q other

theorem uses_append {w w' : Resolve H} {more : List (Nat × LeaseUse)}
    (same : w'.handed = w.handed ++ more) (q : Nat) :
    w'.uses q = w.uses q + (more.map Prod.fst).count q := by
  rw [uses, same, List.map_append, List.count_append, ← uses]

/-- A move that hands over `more` while the lease in hand becomes `held`. -/
theorem LeaseOk.pass {w w' : Resolve H} (ok : LeaseOk w) {more : List (Nat × LeaseUse)}
    (handed : w'.handed = w.handed ++ more) (queries : w'.queries = w.queries)
    (balance : ∀ q, (more.map Prod.fst).count q + (if w'.holds = some q then 1 else 0) =
      if w.holds = some q then 1 else 0) : LeaseOk w' := by
  intro q
  have before := ok q
  have now := balance q
  have same : w'.minted q = w.minted q := by simp only [minted, queries]
  rw [uses_append handed, same, ← before]
  omega

theorem LeaseOk.keep {w w' : Resolve H} (ok : LeaseOk w) (handed : w'.handed = w.handed)
    (queries : w'.queries = w.queries) (holds : w'.holds = w.holds) : LeaseOk w' :=
  ok.pass (by rw [handed, List.append_nil]) queries (by simp [holds])

variable [DecidableEq H] [SequenceHashing H] {call : ResolveCall} {w w' : Resolve H} {turn : Turn}

omit [DecidableEq H] [SequenceHashing H] in
theorem minted_set {q : Nat} {reply : TierReply} (running : w.queries[q]? = some none)
    (queries : w'.queries = w.queries.set q (some reply)) (other : Nat) :
    w'.minted other = if other = q then reply.leased else w.minted other := by
  have inside := (List.getElem?_eq_some_iff.mp running).1
  unfold minted
  rw [queries]
  split_ifs with same
  · subst same
    rw [List.getElem?_set_self inside]
  · rw [List.getElem?_set_ne (Ne.symm same)]

omit [DecidableEq H] [SequenceHashing H] in
/-- A reply reaches the resolve that waits for it; another one's lease is
released at once. -/
theorem holds_replies {q : Nat} {reply : TierReply} (running : w.queries[q]? = some none)
    (queries : w'.queries = w.queries.set q (some reply)) (phase : w'.phase = w.phase) :
    w'.holds = if w.awaits q = true ∧ reply.leased = true then some q else w.holds := by
  have fresh : w.minted q = false := by simp [minted, running]
  have minted := minted_set running queries
  unfold holds awaits
  rw [phase]
  cases w.phase with
  | querying p other =>
    simp only [minted, beq_iff_eq]
    by_cases same : other = q
    · subst same
      cases reply.leased <;> simp [fresh]
    · simp [same]
  | _ => simp

omit [DecidableEq H] [SequenceHashing H] in
theorem holds_awaits {q : Nat} (awaited : w.awaits q = true) (fresh : w.minted q = false) :
    w.holds = none := by
  unfold awaits at awaited
  unfold holds
  cases phase : w.phase with
  | querying p other =>
    rw [phase] at awaited
    simp only [beq_iff_eq] at awaited
    subst awaited
    simp [fresh]
  | _ => simp [phase] at awaited

omit [DecidableEq H] [SequenceHashing H] in
theorem LeaseOk.replies {q : Nat} {reply : TierReply} (ok : LeaseOk w) (running : w.queries[q]? = some none)
    (queries : w'.queries = w.queries.set q (some reply)) (phase : w'.phase = w.phase)
    (handed : w'.handed = w.handed ++ if w.awaits q then [] else reply.unread q) : LeaseOk w' := by
  have fresh : w.minted q = false := by simp [minted, running]
  intro other
  have before := ok other
  have spare := ok q
  rw [fresh] at spare
  rw [uses_append handed, minted_set running queries, holds_replies running queries phase]
  have unheld : w.holds ≠ some q := by
    intro held
    simp [held] at spare
  by_cases same : other = q
  · subst same
    cases awaited : w.awaits other <;> cases leased : reply.leased <;>
      simp_all [unread_uses]
  · have empty := fun awaited => holds_awaits (w := w) (q := q) awaited fresh
    cases awaited : w.awaits q <;> cases leased : reply.leased <;>
      simp_all [unread_uses, Ne.symm same]

omit [DecidableEq H] [SequenceHashing H] in
theorem LeaseOk.poll (ok : LeaseOk w) {p : Nat} (phase : w.phase = .polling p)
    (phase' : w'.phase = .querying p w.queries.length) (queries : w'.queries = w.queries ++ [none])
    (handed : w'.handed = w.handed) : LeaseOk w' := by
  have minted : ∀ other, w'.minted other = w.minted other := by
    intro other
    unfold Resolve.minted
    rw [queries]
    rcases lt_trichotomy other w.queries.length with old | rfl | out
    · rw [List.getElem?_append_left old]
    · simp
    · rw [List.getElem?_eq_none (by simp; omega), List.getElem?_eq_none out.le]
  have fresh : w.minted w.queries.length = false := by simp [Resolve.minted]
  intro other
  have before := ok other
  have same : w'.holds = w.holds := by simp [holds, phase, phase', minted, fresh]
  rw [minted, same, ← before, uses, handed, uses]

omit [DecidableEq H] [SequenceHashing H] in
/-- The output of a query goes unread. -/
theorem LeaseOk.abandon (ok : LeaseOk w) {p q : Nat} (phase : w.phase = .querying p q)
    (queries : w'.queries = w.queries) (handed : w'.handed = w.handed ++ w.unread q)
    (empty : w'.holds = none) :
    LeaseOk w' := by
  refine ok.pass handed queries ?_
  intro other
  rw [unread_count, empty]
  cases minted : w.minted q <;> simp [holds, phase, minted]

omit [DecidableEq H] [SequenceHashing H] in
theorem holds_declines (p : Nat) (hit : LeasedBlocks) : (w.declines p hit).holds = none := by
  unfold declines holds
  cases w.expired <;> rfl

omit [DecidableEq H] [SequenceHashing H] in
theorem LeaseOk.declines (ok : LeaseOk w) {p : Nat} {hit : LeasedBlocks} {system : System H}
    (phase : w.phase = .deciding p hit) : LeaseOk ({ w with system }.declines p hit) := by
  refine ok.pass rfl rfl ?_
  intro other
  rw [holds_declines]
  simp [holds, phase, List.count_singleton]

theorem LeaseOk.detach {w'' : Resolve H} (ok : LeaseOk w) {p : Nat} (phase : w.phase = .loading p)
    (detached : w.detach = some w') (queries : w''.queries = w'.queries) (handed : w''.handed = w'.handed)
    (empty : w''.holds = none) : LeaseOk w'' := by
  have none : w.holds = none := by simp [holds, phase]
  rcases detach_cases detached with ⟨r, -, rfl⟩ | ⟨r, -, rfl⟩ | ⟨r, state, system, -, -, -, rfl⟩ <;>
    exact ok.keep handed queries (empty.trans none.symm)

theorem LeaseOk.turned (ok : LeaseOk w) (turned : Turned call w turn w') : LeaseOk w' := by
  cases turned with
  | pool apart went => exact ok.keep rfl rfl rfl
  | expires => exact ok.keep rfl rfl rfl
  | replies running => exact ok.replies running rfl rfl rfl
  | settlesKept running joins settled => exact ok.keep rfl rfl rfl
  | settlesPanicked running joins went => exact ok.keep rfl rfl rfl
  | settlesAlone running alone went => exact ok.keep rfl rfl rfl
  | beginCancelled phase => exact ok.keep rfl rfl (by simp [holds, phase])
  | begin phase went => exact ok.keep rfl rfl (by simp [holds, phase])
  | capFull phase full went => exact ok.keep rfl rfl (by simp [holds, phase])
  | cap phase partly => exact ok.keep rfl rfl (by simp [holds, phase])
  | look phase => exact ok.keep rfl rfl (by simp [holds, phase])
  | lookNone phase => exact ok.keep rfl rfl (by simp [holds, phase])
  | pollCancelled phase => exact ok.keep rfl rfl (by simp [holds, phase])
  | poll phase => exact ok.poll phase rfl rfl rfl
  | @heard p q reply phase' phase settled leaseless next =>
    have unleased : reply.leased = false := by
      cases reply with
      | hit blocks => exact absurd rfl (leaseless blocks)
      | _ => rfl
    refine ok.keep rfl rfl ?_
    rcases next with rfl | rfl <;> simp [holds, phase, minted, settled, unleased]
  | heardHit phase settled =>
    exact ok.keep rfl rfl (by simp [holds, phase, minted, settled, TierReply.leased])
  | queryElapsed phase => exact ok.abandon phase rfl rfl rfl
  | wakes phase => exact ok.keep rfl rfl (by simp [holds, phase])
  | readAvailable phase went => exact ok.keep rfl rfl (by simp [holds, phase])
  | decide phase went granted => exact ok.keep rfl rfl rfl
  | decideRefused phase went => exact ok.declines phase
  | take phase went more => exact ok.keep rfl rfl (by simp [holds, phase])
  | takeFailed phase went => exact ok.declines phase
  | proceedCancelled phase went =>
    refine ok.pass rfl rfl ?_
    simp [holds, phase, List.count_singleton]
  | proceed phase =>
    refine ok.pass rfl rfl ?_
    simp [holds, phase, List.count_singleton]
  | joinedLoaded phase settled went => exact ok.keep rfl rfl (by simp [holds, phase])
  | joinedFailed phase settled went => exact ok.keep rfl rfl (by simp [holds, phase])
  | joinedPanicked phase settled => exact ok.keep rfl rfl (by simp [holds, phase])
  | loadElapsed phase detached => exact ok.detach phase detached rfl rfl rfl
  | finishNone phase went => exact ok.keep rfl rfl (by simp [holds, phase])
  | finish phase atP went => exact ok.keep rfl rfl (by simp [holds, phase])
  | discard phase went => exact ok.keep rfl rfl (by simp [holds, phase])
  | dropStart phase => exact ok.keep rfl rfl (by simp [holds, phase])
  | dropQuerying phase => exact ok.abandon phase rfl rfl rfl
  | dropPausing phase => exact ok.keep rfl rfl (by simp [holds, phase])
  | dropLoading phase detached => exact ok.detach phase detached rfl rfl rfl
  | dropHold phase went => exact ok.keep rfl rfl (by simp [holds, phase])

end Resolve

section Runs

variable {H : Type} [DecidableEq H] [SequenceHashing H] {call : ResolveCall} {w w' : Resolve H} {turn : Turn}

/-- Whoever has the gate for a reserve keeps it until it decides. -/
theorem Moved.gate_busy {s s' : System H} {a : Action} (moved : Moved s a s')
    (busy : (∃ count available, s.gate = .reserving count available) ∨ ∃ count, s.gate = .granted count)
    (others : a ≠ .reserveDecide ∧ a ≠ .reserveTake) : s'.gate = s.gate := by
  cases moved with
  | admitRead gate atK fresh => simp [gate] at busy
  | admitGranted gate atK covered => simp [gate] at busy
  | admitRefused gate atK => simp [gate] at busy
  | reserveRead gate => simp [gate] at busy
  | reserveRefused gate => exact absurd rfl others.1
  | reserveGranted gate above => exact absurd rfl others.1
  | reserveFailed gate => exact absurd rfl others.2
  | reserveTake gate alloc => exact absurd rfl others.2
  | _ => rfl

namespace Resolve

omit [DecidableEq H] [SequenceHashing H] in
theorem excludes_apart {a : Action} (apart : w.excludes a = false) :
    (∀ k ∈ a.names, k ∉ w.phase.owns ∧ ∀ state, w.load ≠ some (k, state)) ∧
      (w.phase.hasGate = true → a ≠ .reserveDecide ∧ a ≠ .reserveTake) := by
  simp only [excludes, Bool.or_eq_false_iff] at apart
  refine ⟨by simpa using apart.1, ?_⟩
  intro gate
  simpa [gate] using apart.2

omit [DecidableEq H] [SequenceHashing H] in
theorem GateMine.declines {p : Nat} {hit : LeasedBlocks} : GateMine (w.declines p hit) := by
  intro other hit' deciding
  simp only [Resolve.declines] at deciding
  split at deciding <;> cases deciding

omit [DecidableEq H] [SequenceHashing H] in
theorem GateMine.busy {p : Nat} {hit : LeasedBlocks} (mine : GateMine w) (phase : w.phase = .deciding p hit) :
    (∃ count available, w.system.gate = .reserving count available) ∨
      ∃ count, w.system.gate = .granted count :=
  (mine p hit phase).imp (fun ⟨available, gate⟩ => ⟨_, available, gate⟩) fun gate => ⟨_, gate⟩

theorem GateMine.others {a : Action} {system : System H} (mine : GateMine w)
    (went : w.system.step a = some system)
    (others : w.phase.hasGate = true → a ≠ .reserveDecide ∧ a ≠ .reserveTake) (same : w'.system = system)
    (phase : w'.phase = w.phase) : GateMine w' := by
  intro p hit deciding
  rw [phase] at deciding
  have kept := (System.step_moved went).gate_busy (mine.busy deciding) (others (by rw [deciding]; rfl))
  rw [same, kept]
  exact mine p hit deciding

theorem GateMine.turned (mine : GateMine w) (turned : Turned call w turn w') : GateMine w' := by
  cases turned with
  | pool apart went =>
    refine mine.others went ?_ rfl rfl
    exact fun gate => (excludes_apart apart).2 gate
  | expires => exact mine
  | replies running => exact mine
  | settlesKept running joins settled => exact mine
  | settlesPanicked running joins went => exact mine.others went (by simp) rfl rfl
  | settlesAlone running alone went => exact mine.others went (by simp) rfl rfl
  | readAvailable phase went =>
    rintro p hit ⟨⟩
    cases System.step_moved went with
    | reserveRead gate => exact .inl ⟨_, rfl⟩
  | decide phase went granted =>
    intro p hit deciding
    rcases mine p hit deciding with ⟨available, gate⟩ | gate
    · cases System.step_moved went with
      | reserveRefused refused => exact absurd rfl granted
      | reserveGranted reading above =>
        rw [gate] at reading
        cases reading
        exact .inr rfl
    · cases System.step_moved went with
      | reserveRefused refused => exact absurd rfl granted
      | reserveGranted reading above => simp [gate] at reading
  | decideRefused phase went => exact .declines
  | takeFailed phase went => exact .declines
  | heard phase settled leaseless next => rcases next with rfl | rfl <;> simp [GateMine]
  | _ => simp [GateMine]

/-- Each own move with a lease in hand hands it over or comes closer to it. -/
theorem turned_closer {q : Nat} (ok : LeaseOk w) (held : w.holds = some q) (own : turn.own = true)
    (turned : Turned call w turn w') : w'.uses q = 1 ∨ w'.holds = some q ∧ w'.distance < w.distance := by
  have minted : w'.holds = none → w'.minted q = w.minted q → w'.uses q = 1 := by
    intro empty same
    have before := ok q
    have after := ok.turned turned q
    rw [held] at before
    rw [empty, same] at after
    simp only [if_true] at before
    simp only [reduceCtorEq, if_false, add_zero] at after
    split at after <;> simp_all
  cases turned with
  | pool apart went => simp [Turn.own] at own
  | expires => simp [Turn.own] at own
  | replies running => simp [Turn.own] at own
  | settlesKept running joins settled => simp [Turn.own] at own
  | settlesPanicked running joins went => simp [Turn.own] at own
  | settlesAlone running alone went => simp [Turn.own] at own
  | dropHold phase went => simp [Turn.own] at own
  | heard phase settled leaseless next =>
    refine .inl (minted ?_ rfl)
    rcases next with rfl | rfl <;> rfl
  | heardHit phase settled =>
    refine .inr ⟨?_, by simp [distance, phase]⟩
    simpa [holds, phase, Resolve.minted, settled, TierReply.leased] using held
  | queryElapsed phase => exact .inl (minted rfl rfl)
  | readAvailable phase went =>
    refine .inr ⟨by simpa [holds, phase] using held, ?_⟩
    cases System.step_moved went with
    | reserveRead gate => simp [distance, phase]
  | decide phase went granted =>
    refine .inr ⟨by simpa [holds, phase] using held, ?_⟩
    cases System.step_moved went with
    | reserveRefused refused => exact absurd rfl granted
    | reserveGranted reading above => simp [distance, phase, reading]
  | decideRefused phase went => exact .inl (minted (holds_declines _ _) rfl)
  | take phase went more =>
    refine .inr ⟨by simpa [holds, phase] using held, ?_⟩
    simp only [distance, phase]
    split <;> omega
  | takeFailed phase went => exact .inl (minted (holds_declines _ _) rfl)
  | proceedCancelled phase went => exact .inl (minted rfl rfl)
  | proceed phase => exact .inl (minted rfl rfl)
  | dropQuerying phase => exact .inl (minted rfl rfl)
  | _ => simp_all [holds]

/-- With a lease in hand the resolve can move, unless someone else has the
gate. -/
theorem holds_moves {q : Nat} (mine : GateMine w) (held : w.holds = some q) :
    (∃ turn w', turn.own = true ∧ w.step call turn = some w') ∨ w.system.gate ≠ .free ∧
      w.phase.hasGate = false := by
  cases phase : w.phase with
  | querying p other =>
    have lease : w.minted other = true := by
      by_contra none
      simp [holds, phase, none] at held
    unfold minted at lease
    split at lease
    · rename_i reply settled
      cases reply with
      | hit blocks =>
        refine .inl ⟨.heard, { w with phase := .reserving p ⟨blocks, other⟩ }, rfl, ?_⟩
        simp only [step, phase, settled]
      | _ => simp [TierReply.leased] at lease
    · simp at lease
  | reserving p hit =>
    by_cases free : w.system.gate = .free
    · have read : w.system.step (.reserveRead hit.blocks) =
          some { w.system with gate := .reserving hit.blocks w.system.pool.availableBlocks } := by
        simp only [System.step, free]
      refine .inl ⟨.readAvailable, ?_⟩
      simp only [step, phase, read, Option.map_some]
      exact ⟨_, rfl, rfl⟩
    · exact .inr ⟨free, rfl⟩
  | deciding p hit =>
    refine .inl ?_
    rcases mine p hit phase with ⟨available, gate⟩ | gate
    · refine ⟨.decide, ?_⟩
      simp only [step, phase, System.step, gate, Option.map_some]
      exact ⟨_, rfl, rfl⟩
    · refine ⟨.take, ?_⟩
      simp only [step, phase, System.step, gate]
      split <;> exact ⟨_, rfl, rfl⟩
  | reserved p hit r =>
    refine .inl ⟨.proceed false, ?_⟩
    simp only [step, phase]
    exact ⟨_, rfl, rfl⟩
  | _ => simp [holds, phase] at held

end Resolve

/-- The runs of one resolve, from any pool. -/
inductive ResolveReach (permitted : Resolve H → Turn → Bool) (call : ResolveCall)
    (s : System H) : Resolve H → Prop
  | start : ResolveReach permitted call s (.new s)
  | next {w w' : Resolve H} {turn : Turn} (before : ResolveReach permitted call s w)
      (allowed : permitted w turn = true)
      (went : w.step call turn = some w') : ResolveReach permitted call s w'

theorem ResolveReach.leases {permitted : Resolve H → Turn → Bool} {s : System H}
    (reach : ResolveReach permitted call s w) : w.LeaseOk ∧ w.GateMine := by
  induction reach with
  | start =>
    refine ⟨?_, by simp [Resolve.GateMine, Resolve.new]⟩
    intro q
    simp [Resolve.new, Resolve.uses, Resolve.holds, Resolve.minted]
  | next before allowed went ih =>
    exact ⟨ih.1.turned (Resolve.step_turned went), ih.2.turned (Resolve.step_turned went)⟩

/-- Each lease a query has settled with was handed to the tier once, to load
or to release, or the resolve has it in hand. A resolve that has returned or
was dropped, pauses or waits for its load has none in hand; one that has hands
it over within its next five moves. -/
theorem ResolveReach.every_lease_handed_once {s : System H}
    (reach : ResolveReach (fun _ _ => true) call s w) (q : Nat) :
    w.uses q ≤ 1 ∧ (w.minted q = false → w.uses q = 0) ∧
      (w.minted q = true → w.uses q = 1 ∨ w.holds = some q) ∧
      (∀ result, w.phase = .returned result → w.minted q = true → w.uses q = 1) ∧
      (∀ p, w.phase = .pausing p ∨ w.phase = .loading p → w.minted q = true → w.uses q = 1) ∧
      (w.holds = some q → w.distance ≤ 5 ∧
        (∀ turn w', turn.own = true → w.step call turn = some w' →
          w'.uses q = 1 ∨ w'.holds = some q ∧ w'.distance < w.distance) ∧
        ((∃ turn w', turn.own = true ∧ w.step call turn = some w') ∨
          w.system.gate ≠ .free ∧ w.phase.hasGate = false)) := by
  obtain ⟨ok, mine⟩ := reach.leases
  have count := ok q
  have settled : w.holds = none → w.minted q = true → w.uses q = 1 := by
    intro empty minted
    simpa [empty, minted] using count
  refine ⟨?_, ?_, ?_, ?_, ?_, ?_⟩
  · split at count <;> split at count <;> omega
  · intro none
    rw [none] at count
    simp only [Bool.false_eq_true, if_false] at count
    omega
  · intro minted
    by_cases held : w.holds = some q
    · exact .inr held
    · rw [if_neg held, if_pos minted] at count
      exact .inl count
  · intro result phase minted
    exact settled (by simp [Resolve.holds, phase]) minted
  · intro p phase minted
    refine settled ?_ minted
    rcases phase with phase | phase <;> simp [Resolve.holds, phase]
  · intro held
    refine ⟨?_, ?_, Resolve.holds_moves mine held⟩
    · unfold Resolve.distance
      split <;> first | omega | (split <;> omega)
    · intro turn w' own went
      exact Resolve.turned_closer ok held own (Resolve.step_turned went)

theorem ResolveReach.run {permitted : Resolve H → Turn → Bool} {s : System H} {turns : List Turn}
    (reach : ResolveReach permitted call s w) (ran : w.run permitted call turns = some w') :
    ResolveReach permitted call s w' := by
  induction turns generalizing w with
  | nil =>
    cases ran
    exact reach
  | cons turn turns ih =>
    simp only [Resolve.run] at ran
    split at ran
    · rename_i allowed
      obtain ⟨next, went, ran⟩ := Option.bind_eq_some_iff.mp ran
      exact ih (reach.next allowed went) ran
    · simp at ran

end Runs

/-- A resolve declines a hit too large for the pool, pauses, and is dropped
while its second query runs; the tier answers that one late. -/
def lateHit : Option (Resolve ChainKey) :=
  (System.new 2 2).bind fun s => (Resolve.new s).run (fun _ _ => true)
    ⟨[1, 2, 3, 4, 5], none, ⟨false, false⟩, true⟩
    [.begin false, .cap, .look, .poll false, .replies 0 (.hit 2), .heard, .readAvailable,
      .decide, .wakes, .poll false,
      .dropFuture, .discard, .replies 1 (.hit 1)]

theorem ResolveReach.every_lease_handed_once_late_hit :
    ∃ (s : System ChainKey) (w : Resolve ChainKey),
      ResolveReach (fun _ _ => true) ⟨[1, 2, 3, 4, 5], none, ⟨false, false⟩, true⟩ s w ∧
        w.handed = [(0, .release), (1, .release)] ∧ w.uses 0 = 1 ∧ w.uses 1 = 1 := by
  have shape : lateHit.map (fun w => (w.handed, w.phase, w.minted 0, w.minted 1)) =
      some ([(0, .release), (1, .release)], .returned .none, true, true) := by decide +kernel
  obtain ⟨w, ran, shape⟩ := Option.map_eq_some_iff.mp shape
  simp only [Prod.mk.injEq] at shape
  obtain ⟨handed, phase, first, second⟩ := shape
  obtain ⟨s, made, ran⟩ := Option.bind_eq_some_iff.mp ran
  have reach := ResolveReach.start.run ran
  exact ⟨s, w, reach, handed, (ResolveReach.every_lease_handed_once reach 0).2.2.2.1 _ phase first,
    (ResolveReach.every_lease_handed_once reach 1).2.2.2.1 _ phase second⟩

end PegaInfer.KvStore
