import PegaInfer.K3.Whale

namespace PegaInfer.K3

/-- A member's entry into a superstep: the launch count it was at, and what
`at_launch` handed it. -/
structure Entry where
  rank : Nat
  at_ : Nat
  whale : CommittedWhale
  deriving DecidableEq

/-- One sequencer and a member for every rank. The channel to a member keeps the
order of its messages; the one to the sequencer need not. `received`, `sent` and
`entered` are histories: the requests the sequencer has taken in, the messages it
has sent, the supersteps entered. -/
structure Fleet where
  sequencer : WhaleSequencer
  members : Nat → WhaleMember
  counts : Nat → Nat
  toSequencer : List WhaleToSequencer
  toMember : Nat → List WhaleToMember
  received : List WhaleRequest
  sent : List WhaleOutbound
  entered : List Entry

def Fleet.new (world chunkTokens : Nat) (counts : Nat → Nat) : Fleet :=
  { sequencer := .new world chunkTokens
    members := .new
    counts
    toSequencer := []
    toMember := fun _ => []
    received := []
    sent := []
    entered := [] }

/-- What the transport puts into a rank's channel. -/
def mailFor (rank : Nat) (outbound : List WhaleOutbound) : List WhaleToMember :=
  (outbound.filter (·.to_ = rank)).map (·.message)

/-- The sequencer moves on and its messages are routed. -/
def Fleet.route (fleet : Fleet) (result : WhaleSequencer × List WhaleOutbound) : Fleet :=
  { fleet with
    sequencer := result.1
    toMember := fun rank => fleet.toMember rank ++ mailFor rank result.2
    sent := fleet.sent ++ result.2 }

/-- A message the sequencer is about to handle has left its channel. -/
def Fleet.take (fleet : Fleet) (message : WhaleToSequencer) (rest : List WhaleToSequencer) : Fleet :=
  { fleet with
    toSequencer := rest
    received := fleet.received ++ match message with
      | .request request => [request]
      | .ready .. => [] }

/-- A commit reaches its member before the member's count reaches its launch. -/
def Fleet.InTime (fleet : Fleet) (rank : Nat) (message : WhaleToMember) : Prop :=
  ∀ seq launch, message = .commit seq launch → fleet.counts rank < launch

/-- A member has handled the head of its channel. -/
def Fleet.heard (fleet : Fleet) (rank : Nat) (next : WhaleMember) (reply : Option WhaleToSequencer)
    (rest : List WhaleToMember) : Fleet :=
  { fleet with
    members := Function.update fleet.members rank next
    toMember := Function.update fleet.toMember rank rest
    toSequencer := fleet.toSequencer ++ reply.toList }

/-- A member has passed its launch boundary and launched `launches` times. -/
def Fleet.launched (fleet : Fleet) (rank : Nat) (next : WhaleMember) (launches : Nat) : Fleet :=
  { fleet with
    members := Function.update fleet.members rank next
    counts := Function.update fleet.counts rank (fleet.counts rank + launches) }

/-- What a rank does: it posts a request, handles the head of its channel, or
steps past a launch boundary, which is a single launch unless it is quiet. -/
inductive MemberStep : Fleet → Fleet → Prop
  | post (fleet : Fleet) (request : WhaleRequest) :
      MemberStep fleet { fleet with toSequencer := fleet.toSequencer ++ [.request request] }
  | toMember {fleet : Fleet} {rank : Nat} {message : WhaleToMember} {rest : List WhaleToMember}
      {next : WhaleMember} {reply : Option WhaleToSequencer} :
      fleet.toMember rank = message :: rest → fleet.InTime rank message →
      (fleet.members rank).onMessage message (fleet.counts rank) = .ok (next, reply) →
      MemberStep fleet (fleet.heard rank next reply rest)
  | enter {fleet : Fleet} {rank : Nat} {next : WhaleMember} {whale : CommittedWhale} :
      (fleet.members rank).atLaunch (fleet.counts rank) = .ok (next, .enter whale) →
      MemberStep fleet
        { fleet.launched rank next 1 with
          entered := fleet.entered ++ [{ rank, at_ := fleet.counts rank, whale }] }
  | launch {fleet : Fleet} {rank : Nat} {next : WhaleMember} {launches : Nat} :
      (fleet.members rank).atLaunch (fleet.counts rank) = .ok (next, .free) →
      (next.isQuiet = false → launches = 1) →
      MemberStep fleet (fleet.launched rank next launches)

section

variable (segments : (total width chunkTokens : Nat) → List (Nat × Nat))

/-- One event of the fleet. -/
inductive FleetStep : Fleet → Fleet → Prop
  | member {fleet after : Fleet} : MemberStep fleet after → FleetStep fleet after
  | toSequencer {fleet : Fleet} {earlier later : List WhaleToSequencer} {message : WhaleToSequencer}
      {result : WhaleSequencer × List WhaleOutbound} :
      fleet.toSequencer = earlier ++ message :: later →
      fleet.sequencer.onMessage segments message = .ok result →
      FleetStep fleet ((fleet.take message (earlier ++ later)).route result)
  | gatherTimeout (fleet : Fleet) : FleetStep fleet (fleet.route (fleet.sequencer.onGatherTimeout segments))

/-- A run of the fleet from its start, with any launch counts. -/
inductive FleetReach (world chunkTokens : Nat) : Fleet → Prop
  | start (counts : Nat → Nat) : FleetReach world chunkTokens (.new world chunkTokens counts)
  | next {fleet after : Fleet} :
      FleetReach world chunkTokens fleet → FleetStep segments fleet after → FleetReach world chunkTokens after

/-- The single moves a call of the sequencer is made of. -/
inductive Decree : Fleet → Fleet → Prop
  | receive {fleet : Fleet} {earlier later : List WhaleToSequencer} {request : WhaleRequest} :
      fleet.toSequencer = earlier ++ .request request :: later →
      Decree fleet
        { fleet.take (.request request) (earlier ++ later) with
          sequencer := { fleet.sequencer with queue := fleet.sequencer.queue ++ [request] } }
  | stale {fleet : Fleet} {earlier later : List WhaleToSequencer} {seq : Nat} {rank : Nat} {count : Nat} :
      fleet.toSequencer = earlier ++ .ready seq rank count :: later →
      (∀ gathering, fleet.sequencer.gathering = some gathering → gathering.descriptor.seq ≠ seq) →
      Decree fleet { fleet with toSequencer := earlier ++ later }
  | reply {fleet : Fleet} {earlier later : List WhaleToSequencer} {rank : Nat} {count : Nat}
      {gathering : Gathering} {cpRank : Nat} :
      fleet.sequencer.gathering = some gathering →
      fleet.toSequencer = earlier ++ .ready gathering.descriptor.seq rank count :: later →
      gathering.descriptor.cpRankOf rank = some cpRank → gathering.replies.getD cpRank none = none →
      Decree fleet
        { fleet with
          toSequencer := earlier ++ later
          sequencer := { fleet.sequencer with
            gathering := some { gathering with replies := gathering.replies.set cpRank (some count) } } }
  | refuse {fleet : Fleet} {request : WhaleRequest} {queue : List WhaleRequest} :
      fleet.sequencer.gathering = none → fleet.sequencer.queue = request :: queue →
      k3WhaleWidth segments request.prompt.length fleet.sequencer.world fleet.sequencer.chunkTokens = none →
      Decree fleet
        (fleet.route ({ fleet.sequencer with nextSeq := fleet.sequencer.nextSeq + 1, queue },
          [{ to_ := request.poster, message := .cancel fleet.sequencer.nextSeq }]))
  | gather {fleet : Fleet} {request : WhaleRequest} {queue : List WhaleRequest} {width : Nat} :
      fleet.sequencer.gathering = none → fleet.sequencer.queue = request :: queue →
      k3WhaleWidth segments request.prompt.length fleet.sequencer.world
        fleet.sequencer.chunkTokens = some width →
      Decree fleet
        (fleet.route ({ fleet.sequencer with
          nextSeq := fleet.sequencer.nextSeq + 1
          gathering := some
            { descriptor := request.descriptor fleet.sequencer.nextSeq width fleet.sequencer.world
              replies := List.replicate
                (request.descriptor fleet.sequencer.nextSeq width fleet.sequencer.world).gang.length
                  none }
          queue },
          broadcast (request.descriptor fleet.sequencer.nextSeq width fleet.sequencer.world).gang
            (.gather (request.descriptor fleet.sequencer.nextSeq width fleet.sequencer.world))))
  | commit {fleet : Fleet} {gathering : Gathering} {highest : Nat} :
      fleet.sequencer.gathering = some gathering → gathering.highest = some highest →
      Decree fleet
        (fleet.route ({ fleet.sequencer with
          gathering := none
          committedFloor := some (fleet.sequencer.launchAfter highest) },
          broadcast gathering.descriptor.gang
            (.commit gathering.descriptor.seq (fleet.sequencer.launchAfter highest))))
  | cancel {fleet : Fleet} {gathering : Gathering} :
      fleet.sequencer.gathering = some gathering →
      Decree fleet
        (fleet.route ({ fleet.sequencer with gathering := none },
          broadcast gathering.descriptor.gang (.cancel gathering.descriptor.seq)))

end

@[simp] theorem mailFor_nil (rank : Nat) : mailFor rank [] = [] := rfl

@[simp] theorem mailFor_append (rank : Nat) (early late : List WhaleOutbound) :
    mailFor rank (early ++ late) = mailFor rank early ++ mailFor rank late := by
  simp only [mailFor, List.filter_append, List.map_append]

theorem mem_mailFor {rank : Nat} {outbound : List WhaleOutbound} {message : WhaleToMember} :
    message ∈ mailFor rank outbound ↔ { to_ := rank, message } ∈ outbound := by
  simp only [mailFor, List.mem_map, List.mem_filter, decide_eq_true_eq]
  constructor
  · rintro ⟨⟨to_, _⟩, ⟨member, rfl⟩, rfl⟩
    exact member
  · intro member
    exact ⟨_, ⟨member, rfl⟩, rfl⟩

theorem mem_broadcast {gang : List Nat} {message : WhaleToMember} {out : WhaleOutbound} :
    out ∈ broadcast gang message ↔ out.to_ ∈ gang ∧ out.message = message := by
  simp only [broadcast, List.mem_map]
  constructor
  · rintro ⟨rank, member, rfl⟩
    exact ⟨member, rfl⟩
  · rintro ⟨member, rfl⟩
    exact ⟨_, member, rfl⟩

/-- A broadcast reaches each rank of its gang once, and no other. -/
theorem mailFor_broadcast {gang : List Nat} (distinct : gang.Nodup) (rank : Nat) (message : WhaleToMember) :
    mailFor rank (broadcast gang message) = if rank ∈ gang then [message] else [] := by
  induction gang with
  | nil => rfl
  | cons head tail ih =>
    obtain ⟨fresh, distinct⟩ := List.nodup_cons.mp distinct
    have rest := ih distinct
    simp only [broadcast, mailFor, List.map_cons, List.filter_cons, decide_eq_true_eq] at rest ⊢
    by_cases same : head = rank
    · subst same
      simp only [if_true, List.map_cons, rest, if_neg fresh, List.mem_cons_self]
    · have other : (rank ∈ head :: tail) ↔ rank ∈ tail := by
        simp only [List.mem_cons, or_iff_right_iff_imp]
        exact fun eq => absurd eq.symm same
      simp only [if_neg same, rest, other]

section Decrees

variable {segments : (total width chunkTokens : Nat) → List (Nat × Nat)}

open Relation

theorem Fleet.route_nothing (fleet : Fleet) : fleet.route (fleet.sequencer, []) = fleet := by
  simp only [route, mailFor_nil, List.append_nil]

theorem Fleet.route_route (fleet : Fleet) (middle last : WhaleSequencer) (early late : List WhaleOutbound) :
    (fleet.route (middle, early)).route (last, late) = fleet.route (last, early ++ late) := by
  simp only [route, mailFor_append, List.append_assoc]

theorem Decree.gatherFrom {fleet : Fleet} {queue : List WhaleRequest}
    (idle : fleet.sequencer.gathering = none)
    (waiting : fleet.sequencer.queue = queue) :
    ReflTransGen (Decree segments) fleet (fleet.route (fleet.sequencer.gatherFrom segments queue)) := by
  induction queue generalizing fleet with
  | nil =>
    have same : fleet.sequencer.gatherFrom segments [] = (fleet.sequencer, []) := by
      simp only [WhaleSequencer.gatherFrom, ← waiting]
    rw [same, fleet.route_nothing]
  | cons request queue ih =>
    cases found : k3WhaleWidth segments request.prompt.length fleet.sequencer.world
      fleet.sequencer.chunkTokens with
    | none =>
      have rest := @ih (fleet.route ({ fleet.sequencer with nextSeq := fleet.sequencer.nextSeq + 1, queue },
        [{ to_ := request.poster, message := .cancel fleet.sequencer.nextSeq }])) idle rfl
      simp only [WhaleSequencer.gatherFrom, found]
      rw [← List.singleton_append, ← fleet.route_route]
      exact .head (.refuse idle waiting found) rest
    | some width =>
      simp only [WhaleSequencer.gatherFrom, found]
      exact .single (.gather idle waiting found)

theorem Decree.startNextGather (fleet : Fleet) :
    ReflTransGen (Decree segments) fleet (fleet.route (fleet.sequencer.startNextGather segments)) := by
  simp only [WhaleSequencer.startNextGather]
  split
  · rw [fleet.route_nothing]
  · next idle => exact Decree.gatherFrom idle rfl

theorem Decree.tryCommit (fleet : Fleet) :
    ReflTransGen (Decree segments) fleet (fleet.route (fleet.sequencer.tryCommit segments)) := by
  simp only [WhaleSequencer.tryCommit]
  split
  · rw [fleet.route_nothing]
  · next gathering open_ =>
    split
    · rw [fleet.route_nothing]
    · next highest all =>
      rw [← fleet.route_route]
      exact .head (.commit open_ all) (Decree.startNextGather _)

theorem Decree.onGatherTimeout (fleet : Fleet) :
    ReflTransGen (Decree segments) fleet (fleet.route (fleet.sequencer.onGatherTimeout segments)) := by
  simp only [WhaleSequencer.onGatherTimeout]
  split
  · rw [fleet.route_nothing]
  · next gathering open_ =>
    rw [← fleet.route_route]
    exact .head (.cancel open_) (Decree.startNextGather _)

/-- A call that returns is a run of decrees. -/
theorem Decree.onMessage {fleet : Fleet} {earlier later : List WhaleToSequencer} {message : WhaleToSequencer}
    {result : WhaleSequencer × List WhaleOutbound} (queued : fleet.toSequencer = earlier ++ message :: later)
    (call : fleet.sequencer.onMessage segments message = .ok result) :
    ReflTransGen (Decree segments) fleet ((fleet.take message (earlier ++ later)).route result) := by
  cases message with
  | request request =>
    cases call
    exact .head (.receive queued) (Decree.startNextGather _)
  | ready seq rank count =>
    have taken : fleet.take (.ready seq rank count) (earlier ++ later) =
        { fleet with toSequencer := earlier ++ later } := by
      simp only [Fleet.take, List.append_nil]
    rw [taken]
    simp only [WhaleSequencer.onMessage] at call
    split at call
    · next idle =>
      cases call
      rw [Fleet.route_nothing { fleet with toSequencer := earlier ++ later }]
      exact .single (.stale queued fun gathering open_ => by rw [idle] at open_; cases open_)
    · next gathering open_ =>
      split at call
      · next other =>
        cases call
        rw [Fleet.route_nothing { fleet with toSequencer := earlier ++ later }]
        refine .single (.stale queued fun current same => ?_)
        rw [open_] at same
        cases same
        exact other
      · next same =>
        simp only [ne_eq, Decidable.not_not] at same
        subst same
        split at call
        · cases call
        · next cpRank inGang =>
          split at call
          · cases call
          · next fresh =>
            cases call
            have silent : gathering.replies.getD cpRank none = none := by
              simpa only [Option.isSome_iff_ne_none, ne_eq, Decidable.not_not] using fresh
            exact .head (.reply open_ queued inGang silent) (Decree.tryCommit _)

/-- A property that every rank's step and every decree keeps holds in every run. -/
theorem FleetReach.invariant {world chunkTokens : Nat} {fleet : Fleet} (property : Fleet → Prop)
    (reach : FleetReach segments world chunkTokens fleet)
    (start : ∀ counts, property (.new world chunkTokens counts))
    (member : ∀ {before after : Fleet}, property before → MemberStep before after → property after)
    (decree : ∀ {before after : Fleet}, property before → Decree segments before after → property after) :
    property fleet := by
  have decrees : ∀ {before after : Fleet}, property before →
      ReflTransGen (Decree segments) before after → property after := by
    intro before after holds moves
    induction moves with
    | refl => exact holds
    | tail _ move ih => exact decree ih move
  induction reach with
  | start counts => exact start counts
  | next _ step ih =>
    cases step with
    | member move => exact member ih move
    | toSequencer queued call => exact decrees ih (Decree.onMessage queued call)
    | gatherTimeout => exact decrees ih (Decree.onGatherTimeout _)

end Decrees

section Gang

theorem k3WhaleGang_getLast (poster width world : Nat) :
    (k3WhaleGang poster width world).getLast? = some poster := by
  simp only [k3WhaleGang, List.getLast?_concat]

theorem k3WhaleGang_nodup (poster width world : Nat) : (k3WhaleGang poster width world).Nodup := by
  simp only [k3WhaleGang]
  refine List.Nodup.append (List.Nodup.filter _ List.nodup_range') (List.nodup_singleton _) ?_
  intro rank inBlock isPoster
  simp only [List.mem_filter, decide_eq_true_eq, List.mem_singleton] at inBlock isPoster
  exact inBlock.2 isPoster

/-- A poster of the world gets a gang of exactly the chosen width. -/
theorem k3WhaleGang_length {poster width world : Nat} (inWorld : poster < world) (wide : 0 < width)
    (fits : width ≤ world) :
    (k3WhaleGang poster width world).length = width := by
  simp only [k3WhaleGang]
  generalize begin : (if 4 ≤ width then min (poster / 4 * 4) (world - width)
    else min poster (world - width)) = start
  have inside : start ≤ poster ∧ poster < start + width := by
    have tray := Nat.div_mul_le_self poster 4
    have over_ := Nat.lt_div_mul_add (a := poster) (b := 4) (by decide)
    split at begin <;> omega
  have inBlock : poster ∈ List.range' start width := by
    simp only [List.mem_range'_1]
    exact inside
  have erased : (List.range' start width).filter (fun rank => decide (rank ≠ poster)) =
      (List.range' start width).erase poster := by
    rw [List.Nodup.erase_eq_filter List.nodup_range']
    exact List.filter_congr fun rank _ => by simp [bne, beq_eq_decide]
  rw [erased, List.length_append, List.length_erase_of_mem inBlock, List.length_range', List.length_singleton]
  omega

theorem doubleWithin_le (world fuel width : Nat) : doubleWithin world fuel width ≤ max world width := by
  induction fuel generalizing width with
  | zero => simp only [doubleWithin]; omega
  | succ fuel ih =>
    have rest := ih (width * 2)
    simp only [doubleWithin]
    split <;> omega

variable {segments : (total width chunkTokens : Nat) → List (Nat × Nat)}

theorem halveUntilAdmitted_bounds {total chunkTokens fuel width admitted : Nat}
    (found : halveUntilAdmitted segments total chunkTokens fuel width = some admitted) :
    2 ≤ admitted ∧ admitted ≤ width := by
  induction fuel generalizing width with
  | zero => cases found
  | succ fuel ih =>
    simp only [halveUntilAdmitted] at found
    split at found
    · split at found
      · cases found
        omega
      · have := ih found
        omega
    · cases found

theorem k3WhaleWidth_bounds {total world chunkTokens width : Nat}
    (found : k3WhaleWidth segments total world chunkTokens = some width) : 2 ≤ width ∧ width ≤ world := by
  have bounds := halveUntilAdmitted_bounds found
  have le := doubleWithin_le world world 1
  omega

end Gang

end PegaInfer.K3
