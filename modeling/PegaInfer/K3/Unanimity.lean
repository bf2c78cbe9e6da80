import PegaInfer.K3.Rendezvous
import PegaInfer.K3.WhaleSplit

namespace PegaInfer.K3

variable {segments : (total width chunkTokens : Nat) → List (Nat × Nat)} {world chunkTokens : Nat}

/-- A talk that is up to date with the sequencer. -/
structure Talk.UpToDate (rank : Nat) (sequencer : WhaleSequencer) (talk : Talk) : Prop where
  armed : talk.armed = sequencer.openFor rank
  floor : ∀ whale ∈ talk.commits, ∃ floor, sequencer.committedFloor = some floor ∧ whale.launch ≤ floor

namespace Fleet.Listens

variable {fleet : Fleet} {rank : Nat}

theorem route (ok : fleet.Listens rank) {result : WhaleSequencer × List WhaleOutbound}
    (goesOn : ∀ talk : Talk, talk.UpToDate rank fleet.sequencer →
      ∃ last : Talk, LabelledRun (Talk.Hears rank) talk (mailFor rank result.2) last ∧
        last.UpToDate rank result.1) :
    (fleet.route result).Listens rank := by
  obtain ⟨heard, talk, final, listening⟩ := ok
  obtain ⟨last, run, current⟩ := goesOn final ⟨listening.armed_final, listening.floor⟩
  refine ⟨heard, talk, last, ?_⟩
  simp only [Fleet.route, mailFor_append]
  exact listening.speak run current.armed current.floor

/-- What is under way to a rank has been sent to it. -/
theorem mem_sent (ok : fleet.Listens rank) {message : WhaleToMember}
    (inside : message ∈ fleet.toMember rank) :
    { to_ := rank, message } ∈ fleet.sent := by
  obtain ⟨heard, talk, final, listening⟩ := ok
  rw [← mem_mailFor, ← listening.stream]
  exact List.mem_append_right _ inside

end Fleet.Listens

theorem WhaleSequencer.openFor_of_idle {sequencer : WhaleSequencer}
    (idle : sequencer.gathering = none) (rank : Nat) :
    sequencer.openFor rank = none := by
  simp only [openFor, idle, Option.map_none, Option.filter_none]

theorem WhaleSequencer.openFor_of_mem {sequencer : WhaleSequencer} {gathering : Gathering} {rank : Nat}
    (open_ : sequencer.gathering = some gathering) (inGang : rank ∈ gathering.descriptor.gang) :
    sequencer.openFor rank = some gathering.descriptor := by
  simp only [openFor, open_, Option.map_some, Option.filter_some, inGang, decide_true, if_true]

theorem WhaleSequencer.openFor_of_not_mem {sequencer : WhaleSequencer} {gathering : Gathering} {rank : Nat}
    (open_ : sequencer.gathering = some gathering) (outside : rank ∉ gathering.descriptor.gang) :
    sequencer.openFor rank = none := by
  simp only [openFor, open_, Option.map_some, Option.filter_some, outside, decide_false,
    Bool.false_eq_true, if_false]

section Decrees

variable {fleet : Fleet}

theorem Talk.UpToDate.refuse {rank : Nat} {sequencer : WhaleSequencer} {talk : Talk}
    (current : talk.UpToDate rank sequencer)
    (idle : sequencer.gathering = none) (poster seq nextSeq : Nat) (queue : List WhaleRequest) :
    ∃ last : Talk, LabelledRun (Talk.Hears rank) talk
      (mailFor rank [{ to_ := poster, message := .cancel seq }]) last ∧
      last.UpToDate rank { sequencer with nextSeq, queue } := by
  obtain ⟨armed, commits⟩ := talk
  obtain rfl : armed = none := current.armed.trans (WhaleSequencer.openFor_of_idle idle rank)
  refine ⟨_, ?_, current.armed, current.floor⟩
  by_cases mine : poster = rank
  · simp only [mailFor, mine, decide_true, List.filter_cons_of_pos, List.filter_nil,
      List.map_cons, List.map_nil]
    exact .single (.refusal seq)
  · simp only [mailFor, mine, decide_false, Bool.false_eq_true, not_false_eq_true,
      List.filter_cons_of_neg, List.filter_nil,
      List.map_nil]
    exact .nil _

theorem Talk.UpToDate.gather {rank : Nat} {sequencer : WhaleSequencer} {talk : Talk}
    {descriptor : WhaleDescriptor}
    (current : talk.UpToDate rank sequencer) (idle : sequencer.gathering = none)
    (distinct : descriptor.gang.Nodup)
    (valid : descriptor.verify = .ok ()) (nextSeq : Nat) (replies : List (Option Nat))
    (queue : List WhaleRequest) :
    ∃ last : Talk, LabelledRun (Talk.Hears rank) talk
      (mailFor rank (broadcast descriptor.gang (.gather descriptor))) last ∧
      last.UpToDate rank { sequencer with nextSeq, gathering := some { descriptor, replies }, queue } := by
  obtain ⟨armed, commits⟩ := talk
  obtain rfl : armed = none := current.armed.trans (WhaleSequencer.openFor_of_idle idle rank)
  rw [mailFor_broadcast distinct]
  by_cases inGang : rank ∈ descriptor.gang
  · rw [if_pos inGang]
    refine ⟨_, .single (.gather valid inGang), ?_, current.floor⟩
    rw [WhaleSequencer.openFor_of_mem rfl inGang]
  · rw [if_neg inGang]
    exact ⟨_, .nil _, (WhaleSequencer.openFor_of_not_mem rfl inGang).symm, current.floor⟩

theorem Talk.UpToDate.commit {rank : Nat} {sequencer : WhaleSequencer} {talk : Talk} {gathering : Gathering}
    (current : talk.UpToDate rank sequencer) (open_ : sequencer.gathering = some gathering)
    (distinct : gathering.descriptor.gang.Nodup) (highest : Nat) :
    ∃ last : Talk, LabelledRun (Talk.Hears rank) talk
        (mailFor rank (broadcast gathering.descriptor.gang
          (.commit gathering.descriptor.seq (sequencer.launchAfter highest)))) last ∧
      last.UpToDate rank
        { sequencer with gathering := none, committedFloor := some (sequencer.launchAfter highest) } := by
  have below : ∀ whale ∈ talk.commits, whale.launch < sequencer.launchAfter highest := by
    intro whale member
    obtain ⟨floor, now, le⟩ := current.floor whale member
    simp only [WhaleSequencer.launchAfter, now, Option.elim_some]
    omega
  obtain ⟨armed, commits⟩ := talk
  rw [mailFor_broadcast distinct]
  by_cases inGang : rank ∈ gathering.descriptor.gang
  · obtain rfl : armed = some gathering.descriptor :=
      current.armed.trans (WhaleSequencer.openFor_of_mem open_ inGang)
    obtain ⟨cpRank, found⟩ := WhaleDescriptor.cpRankOf_of_mem inGang
    rw [if_pos inGang]
    refine ⟨_, .single (.commit found below), (WhaleSequencer.openFor_of_idle rfl rank).symm, ?_⟩
    intro whale member
    refine ⟨_, rfl, ?_⟩
    rcases List.mem_append.mp member with old | new
    · exact (below whale old).le
    · rw [List.mem_singleton.mp new]
  · obtain rfl : armed = none := current.armed.trans (WhaleSequencer.openFor_of_not_mem open_ inGang)
    rw [if_neg inGang]
    exact ⟨_, .nil _, (WhaleSequencer.openFor_of_idle rfl rank).symm, fun whale member =>
      ⟨_, rfl, (below whale member).le⟩⟩

theorem Talk.UpToDate.cancel {rank : Nat} {sequencer : WhaleSequencer} {talk : Talk} {gathering : Gathering}
    (current : talk.UpToDate rank sequencer) (open_ : sequencer.gathering = some gathering)
    (distinct : gathering.descriptor.gang.Nodup) :
    ∃ last : Talk, LabelledRun (Talk.Hears rank) talk
        (mailFor rank (broadcast gathering.descriptor.gang (.cancel gathering.descriptor.seq))) last ∧
      last.UpToDate rank { sequencer with gathering := none } := by
  obtain ⟨armed, commits⟩ := talk
  rw [mailFor_broadcast distinct]
  by_cases inGang : rank ∈ gathering.descriptor.gang
  · obtain rfl : armed = some gathering.descriptor :=
      current.armed.trans (WhaleSequencer.openFor_of_mem open_ inGang)
    rw [if_pos inGang]
    exact ⟨_, .single .cancel, (WhaleSequencer.openFor_of_idle rfl rank).symm, current.floor⟩
  · obtain rfl : armed = none := current.armed.trans (WhaleSequencer.openFor_of_not_mem open_ inGang)
    rw [if_neg inGang]
    exact ⟨_, .nil _, (WhaleSequencer.openFor_of_idle rfl rank).symm, current.floor⟩

end Decrees

namespace Fleet.Ok

theorem new (counts : Nat → Nat) : Fleet.Ok segments world chunkTokens (.new world chunkTokens counts) where
  sequenced := .new world chunkTokens
  listens := fun rank => ⟨_, _, _, Listening.new rank world chunkTokens (counts rank)⟩
  owing := ⟨fun _ _ _ member => (by cases member), fun _ open_ => (by cases open_),
    fun _ open_ => (by cases open_)⟩
  punctual := by intro entry member; cases member

theorem older {fleet : Fleet} (ok : Fleet.Ok segments world chunkTokens fleet) (rank : Nat)
    (named : WhaleDescriptor)
    (inside : .gather named ∈ fleet.toMember rank) : named.seq < fleet.sequencer.nextSeq :=
  (ok.sequenced.gathered rank named ((ok.listens rank).mem_sent inside)).1

/-- One decree. -/
theorem decree {fleet after : Fleet} (ok : Fleet.Ok segments world chunkTokens fleet)
    (move : Decree segments fleet after) :
    Fleet.Ok segments world chunkTokens after := by
  have owing := ok.owing
  cases move with
  | @receive earlier later request queued =>
    rw [queued] at owing
    refine ⟨ok.sequenced.receive request, fun rank => ?_, owing.receive _, ok.punctual⟩
    obtain ⟨heard, talk, final, listening⟩ := ok.listens rank
    exact ⟨heard, talk, final, listening.unspoken rfl fun floor now => ⟨floor, now, le_rfl⟩⟩
  | stale queued other =>
    rw [queued] at owing
    exact ⟨ok.sequenced, ok.listens, owing.stale other, ok.punctual⟩
  | @reply earlier later rank count gathering cpRank open_ queued found silent =>
    rw [queued] at owing
    refine ⟨ok.sequenced.reply open_ _, fun other => ?_, owing.reply open_ found silent, ok.punctual⟩
    obtain ⟨heard, talk, final, listening⟩ := ok.listens other
    refine ⟨heard, talk, final, listening.unspoken ?_ (fun floor now => ⟨floor, now, le_rfl⟩)⟩
    simp only [WhaleSequencer.openFor, open_, Option.map_some]
  | @refuse request queue idle waiting found =>
    refine ⟨ok.sequenced.refuse idle waiting,
      fun rank => (ok.listens rank).route fun talk current => current.refuse idle request.poster _ _ queue,
      owing.idle ?_ ?_ _, ok.punctual⟩
    · exact Nat.le_succ _
    · exact idle
  | @gather request queue width idle waiting found =>
    have distinct := k3WhaleGang_nodup request.poster width fleet.sequencer.world
    have sequenced := ok.sequenced.gather (List.replicate
      (request.descriptor fleet.sequencer.nextSeq width fleet.sequencer.world).gang.length none)
        idle waiting found rfl
    have valid := request.descriptor_verify fleet.sequencer.nextSeq width fleet.sequencer.world
    exact ⟨sequenced,
      fun rank => (ok.listens rank).route fun talk current => current.gather idle distinct valid _ _ queue,
      owing.gather rfl distinct ok.older, ok.punctual⟩
  | @commit gathering highest open_ all =>
    have distinct := (ok.sequenced.latest gathering open_).2.gang_nodup
    refine ⟨ok.sequenced.commit open_ highest,
      fun rank => (ok.listens rank).route fun talk current => current.commit open_ distinct highest,
      owing.idle ?_ ?_ _, ok.punctual⟩
    · exact le_rfl
    · rfl
  | @cancel gathering open_ =>
    have distinct := (ok.sequenced.latest gathering open_).2.gang_nodup
    refine ⟨ok.sequenced.cancel open_,
      fun rank => (ok.listens rank).route fun talk current => current.cancel open_ distinct,
      owing.idle ?_ ?_ _, ok.punctual⟩
    · exact le_rfl
    · rfl

/-- One step of a rank. -/
theorem member {fleet after : Fleet} (ok : Fleet.Ok segments world chunkTokens fleet)
    (step : MemberStep fleet after) :
    Fleet.Ok segments world chunkTokens after := by
  cases step with
  | post request => exact ⟨ok.sequenced, ok.listens, ok.owing.post request, ok.punctual⟩
  | @toMember rank message rest next reply head inTime call =>
    obtain ⟨heard, talk, final, listening⟩ := ok.listens rank
    rw [head] at listening
    obtain ⟨accepted, told, answer, listening⟩ := listening.hear inTime
    cases call.symm.trans answer
    refine ⟨ok.sequenced, fun other => ?_, ok.owing.hear head (ok.older rank), ok.punctual⟩
    by_cases same : other = rank
    · subst same
      refine ⟨heard ++ [message], told, final, ?_⟩
      simp only [Fleet.heard, Function.update_self]
      exact listening
    · obtain ⟨heard, talk, final, listening⟩ := ok.listens other
      refine ⟨heard, talk, final, ?_⟩
      simp only [Fleet.heard, Function.update_of_ne same]
      exact listening
  | @enter rank next whale duty =>
    obtain ⟨heard, talk, final, listening⟩ := ok.listens rank
    obtain ⟨now, listening⟩ := listening.enter duty
    refine ⟨ok.sequenced, fun other => ?_, ok.owing, ?_⟩
    · by_cases same : other = rank
      · subst same
        refine ⟨heard, talk, final, ?_⟩
        simpa [Fleet.launched, Fleet.enteredBy] using listening
      · obtain ⟨heard, talk, final, listening⟩ := ok.listens other
        refine ⟨heard, talk, final, ?_⟩
        simpa [Fleet.launched, Fleet.enteredBy, Function.update_of_ne same, Ne.symm same] using listening
    · intro entry member
      rcases List.mem_append.mp member with old | new
      · exact ok.punctual entry old
      · rw [List.mem_singleton.mp new]
        exact now.symm
  | @launch rank next launches duty single =>
    refine ⟨ok.sequenced, fun other => ?_, ok.owing, ok.punctual⟩
    by_cases same : other = rank
    · subst same
      obtain ⟨heard, talk, final, listening⟩ := ok.listens other
      refine ⟨heard, talk, final, ?_⟩
      simp only [Fleet.launched, Function.update_self]
      exact (listening.launch duty single).2
    · obtain ⟨heard, talk, final, listening⟩ := ok.listens other
      refine ⟨heard, talk, final, ?_⟩
      simp only [Fleet.launched, Function.update_of_ne same]
      exact listening

end Fleet.Ok

/-- The invariant holds in every run. -/
theorem FleetReach.ok {fleet : Fleet} (reach : FleetReach segments world chunkTokens fleet) :
    Fleet.Ok segments world chunkTokens fleet :=
  reach.invariant (Fleet.Ok segments world chunkTokens) Fleet.Ok.new Fleet.Ok.member Fleet.Ok.decree

section Stranded

variable {sequencer : WhaleSequencer}

theorem WhaleSequencer.gatherFrom_queue (queue : List WhaleRequest)
    (idle : (sequencer.gatherFrom segments queue).1.gathering = none) :
    (sequencer.gatherFrom segments queue).1.queue = [] := by
  induction queue generalizing sequencer with
  | nil => rfl
  | cons request queue ih =>
    simp only [gatherFrom] at idle ⊢
    split at idle
    · exact ih idle
    · cases idle

theorem WhaleSequencer.startNextGather_queue
    (idle : (sequencer.startNextGather segments).1.gathering = none) :
    (sequencer.startNextGather segments).1.queue = [] := by
  simp only [startNextGather] at idle ⊢
  split
  · next gathering open_ =>
    simp only [open_] at idle
    cases idle
  · next shut =>
    simp only [shut] at idle
    exact gatherFrom_queue _ idle

theorem WhaleSequencer.tryCommit_queue {gathering : Gathering} (open_ : sequencer.gathering = some gathering)
    (idle : (sequencer.tryCommit segments).1.gathering = none) :
    (sequencer.tryCommit segments).1.queue = [] := by
  simp only [tryCommit, open_] at idle ⊢
  split
  · next pending =>
    simp only [pending] at idle
    cases open_.symm.trans idle
  · next highest all =>
    simp only [all] at idle
    exact startNextGather_queue idle

/-- A call leaves a request waiting only behind a whale that gathers. -/
theorem WhaleSequencer.onMessage_queue {message : WhaleToSequencer}
    {result : WhaleSequencer × List WhaleOutbound}
    (call : sequencer.onMessage segments message = .ok result)
    (before : sequencer.gathering = none → sequencer.queue = [])
    (idle : result.1.gathering = none) : result.1.queue = [] := by
  cases message with
  | request request =>
    cases call
    exact startNextGather_queue idle
  | ready seq rank count =>
    simp only [onMessage] at call
    split at call
    · cases call
      exact before idle
    · split at call
      · cases call
        exact before idle
      · split at call
        · cases call
        · split at call
          · cases call
          · cases call
            exact tryCommit_queue rfl idle

theorem FleetReach.queue_empty {fleet : Fleet} (reach : FleetReach segments world chunkTokens fleet) :
    fleet.sequencer.gathering = none → fleet.sequencer.queue = [] := by
  induction reach with
  | start => exact fun _ => rfl
  | next _ step ih =>
    cases step with
    | member move => cases move <;> exact ih
    | toSequencer _ call => exact WhaleSequencer.onMessage_queue call ih
    | gatherTimeout =>
      simp only [Fleet.route, WhaleSequencer.onGatherTimeout]
      split
      · exact ih
      · exact WhaleSequencer.startNextGather_queue

end Stranded

/-- The members' CP ranks are the positions of the gang. -/
theorem WhaleDescriptor.map_cpRankOf {descriptor : WhaleDescriptor} (distinct : descriptor.gang.Nodup) :
    descriptor.gang.map descriptor.cpRankOf = (List.range descriptor.gang.length).map some := by
  refine List.ext_getElem (by simp) fun place inGang inRange => ?_
  simp only [List.length_map] at inGang
  rw [List.getElem_map, List.getElem_map, List.getElem_range, WhaleDescriptor.cpRankOf,
    List.findIdx?_eq_some_iff_getElem]
  refine ⟨inGang, by simp, fun early before => ?_⟩
  simp only [decide_eq_true_eq]
  intro same
  exact absurd (distinct.getElem_inj_iff.mp same) (by omega)

/-- A whale the sequencer has committed to a launch. -/
def Fleet.Committed (fleet : Fleet) (descriptor : WhaleDescriptor) (launch : Nat) : Prop :=
  ∃ rank, { to_ := rank, message := .gather descriptor } ∈ fleet.sent ∧
    { to_ := rank, message := .commit descriptor.seq launch } ∈ fleet.sent

def Fleet.entriesOf (fleet : Fleet) (seq : Nat) : List Entry :=
  fleet.entered.filter (·.whale.descriptor.seq = seq)

/-- What a fleet must never break: no call fails, members enter committed whales
only, once and all at one launch, and the sequencer answers every request it has
taken in. -/
structure Fleet.Unanimous (segments : (total width chunkTokens : Nat) → List (Nat × Nat))
    (world chunkTokens : Nat)
    (fleet : Fleet) : Prop where
  sequencer_accepts : ∀ message ∈ fleet.toSequencer, ∃ result,
    fleet.sequencer.onMessage segments message = .ok result
  member_accepts : ∀ rank message rest, fleet.toMember rank = message :: rest → fleet.InTime rank message →
    ∃ result, (fleet.members rank).onMessage message (fleet.counts rank) = .ok result
  launch_accepts : ∀ rank, ∃ result, (fleet.members rank).atLaunch (fleet.counts rank) = .ok result
  gang : ∀ descriptor launch, fleet.Committed descriptor launch →
    descriptor.gang.map descriptor.cpRankOf = (List.range descriptor.gang.length).map some ∧
      descriptor.gang.getLast? = some descriptor.poster ∧
      (descriptor.poster < world →
        k3WhaleWidth segments descriptor.prompt.length world chunkTokens = some descriptor.gang.length)
  one_launch : ∀ one launch two later, fleet.Committed one launch →
    fleet.Committed two later → one.seq = two.seq →
    one = two ∧ launch = later
  launches_increase : ∀ one launch two later, fleet.Committed one launch →
    fleet.Committed two later → one.seq < two.seq →
    launch < later
  entered_once : (fleet.entered.map fun entry => (entry.rank, entry.whale.descriptor.seq)).Nodup
  entered_committed : ∀ entry ∈ fleet.entered, fleet.Committed entry.whale.descriptor entry.whale.launch ∧
    entry.at_ = entry.whale.launch ∧ entry.rank ∈ entry.whale.descriptor.gang ∧
      entry.whale.descriptor.cpRankOf entry.rank = some entry.whale.cpRank
  cp_ranks : ∀ descriptor launch, fleet.Committed descriptor launch →
    ((fleet.entriesOf descriptor.seq).map (·.whale.cpRank)).Subperm (List.range descriptor.gang.length) ∧
      ((∀ rank ∈ descriptor.gang, ∃ entry ∈ fleet.entriesOf descriptor.seq, entry.rank = rank) →
        ((fleet.entriesOf descriptor.seq).map (·.whale.cpRank)).Perm (List.range descriptor.gang.length))
  cancelled_never : ∀ rank seq, { to_ := rank, message := .cancel seq } ∈ fleet.sent →
    ∀ entry ∈ fleet.entered, entry.whale.descriptor.seq ≠ seq
  queue_empty : fleet.sequencer.gathering = none → fleet.sequencer.queue = []
  owed_once : ∀ gathering, fleet.sequencer.gathering = some gathering → ∀ rank,
    gathering.repliedBy rank + fleet.toSequencer.countP
      (WhaleToSequencer.isReady gathering.descriptor.seq rank) +
      (fleet.toMember rank).countP (WhaleToMember.isGather gathering.descriptor.seq) =
        if rank ∈ gathering.descriptor.gang then 1 else 0
  queue_rest : fleet.sequencer.queue = fleet.received.drop fleet.sequencer.nextSeq
  answered_once : ∀ seq request, fleet.received[seq]? = some request → seq < fleet.sequencer.nextSeq →
    (mailFor request.poster fleet.sent).countP (WhaleToMember.answers seq) =
      if fleet.sequencer.gatheringSeq = some seq then 0 else 1

namespace Fleet.Ok

variable {fleet : Fleet}

theorem sequencer_accepts (ok : Fleet.Ok segments world chunkTokens fleet) {message : WhaleToSequencer}
    (inside : message ∈ fleet.toSequencer) :
    ∃ result, fleet.sequencer.onMessage segments message = .ok result := by
  cases message with
  | request request => exact ⟨_, rfl⟩
  | ready seq rank count =>
    simp only [WhaleSequencer.onMessage]
    split
    · exact ⟨_, rfl⟩
    · next gathering open_ =>
      split
      · exact ⟨_, rfl⟩
      · next same =>
        simp only [ne_eq, Decidable.not_not] at same
        subst same
        have owed := ok.owing.owed gathering open_ rank
        have here : 0 < fleet.toSequencer.countP (WhaleToSequencer.isReady gathering.descriptor.seq rank) :=
          List.countP_pos_iff.mpr ⟨_, inside, by simp [WhaleToSequencer.isReady]⟩
        have inGang : rank ∈ gathering.descriptor.gang := by
          by_contra outside
          rw [if_neg outside] at owed
          omega
        obtain ⟨cpRank, found⟩ := WhaleDescriptor.cpRankOf_of_mem inGang
        have unreplied : gathering.repliedBy rank = 0 := by
          rw [if_pos inGang] at owed
          omega
        simp only [Gathering.repliedBy, found, Option.bind_some, ite_eq_right_iff, one_ne_zero,
          imp_false] at unreplied
        simp only [found, if_neg unreplied]
        exact ⟨_, rfl⟩

theorem member_accepts (ok : Fleet.Ok segments world chunkTokens fleet) {rank : Nat} {message : WhaleToMember}
    {rest : List WhaleToMember} (head : fleet.toMember rank = message :: rest)
    (inTime : fleet.InTime rank message) :
    ∃ result, (fleet.members rank).onMessage message (fleet.counts rank) = .ok result := by
  obtain ⟨heard, talk, final, listening⟩ := ok.listens rank
  rw [head] at listening
  obtain ⟨next, _, call, _⟩ := listening.hear inTime
  exact ⟨_, call⟩

theorem launch_accepts (ok : Fleet.Ok segments world chunkTokens fleet) (rank : Nat) :
    ∃ result, (fleet.members rank).atLaunch (fleet.counts rank) = .ok result := by
  obtain ⟨_, _, _, listening⟩ := ok.listens rank
  exact listening.atLaunch

theorem described (ok : Fleet.Ok segments world chunkTokens fleet)
    {descriptor : WhaleDescriptor} {launch : Nat}
    (committed : fleet.Committed descriptor launch) :
    Described segments world chunkTokens fleet.received descriptor := by
  obtain ⟨rank, gathered, _⟩ := committed
  exact (ok.sequenced.gathered rank descriptor gathered).2.1

theorem one_launch (ok : Fleet.Ok segments world chunkTokens fleet)
    {one two : WhaleDescriptor} {launch later : Nat}
    (first : fleet.Committed one launch) (second : fleet.Committed two later) (same : one.seq = two.seq) :
    one = two ∧ launch = later := by
  obtain rfl := (ok.described first).unique (ok.described second) same
  obtain ⟨rank, _, told⟩ := first
  obtain ⟨other, _, heard⟩ := second
  exact ⟨rfl, ok.sequenced.agreed _ _ _ _ _ told heard⟩

theorem entered_committed (ok : Fleet.Ok segments world chunkTokens fleet) {entry : Entry}
    (inside : entry ∈ fleet.entered) :
    fleet.Committed entry.whale.descriptor entry.whale.launch ∧
      entry.whale.descriptor.cpRankOf entry.rank = some entry.whale.cpRank := by
  obtain ⟨heard, talk, final, listening⟩ := ok.listens entry.rank
  have mine : entry.whale ∈ talk.commits := by
    rw [← listening.commits]
    refine List.mem_append_left _ (List.mem_map.mpr ⟨entry, List.mem_filter.mpr ⟨inside, by simp⟩, rfl⟩)
  obtain ⟨gathered, committed, found⟩ := (Talk.Told.of_run listening.told).commits _ mine
  have sent : ∀ message ∈ heard, { to_ := entry.rank, message } ∈ fleet.sent := by
    intro message member
    rw [← mem_mailFor, ← listening.stream]
    exact List.mem_append_left _ member
  exact ⟨⟨entry.rank, sent _ gathered, sent _ committed⟩, found⟩

/-- A rank's entries lie at increasing launches. -/
theorem entered_increasing (ok : Fleet.Ok segments world chunkTokens fleet) :
    fleet.entered.Pairwise fun early late => early.rank = late.rank →
      early.whale.launch < late.whale.launch := by
  rw [List.pairwise_iff_getElem]
  intro i j insideI insideJ before same
  obtain ⟨_, _, _, listening⟩ := ok.listens fleet.entered[i].rank
  have sorted := (List.pairwise_append.mp listening.increasing).1
  rw [Fleet.enteredBy, List.pairwise_map, List.pairwise_filter, List.pairwise_iff_getElem] at sorted
  exact sorted i j insideI insideJ before (by simp) (by simp [same])

theorem entered_once (ok : Fleet.Ok segments world chunkTokens fleet) :
    (fleet.entered.map fun entry => (entry.rank, entry.whale.descriptor.seq)).Nodup := by
  rw [List.Nodup, List.pairwise_map]
  refine ok.entered_increasing.imp_of_mem fun {early late} inside insideLate increasing same => ?_
  simp only [Prod.mk.injEq] at same
  have one := (ok.one_launch (ok.entered_committed inside).1 (ok.entered_committed insideLate).1 same.2).2
  exact absurd one (increasing same.1).ne

theorem cp_ranks (ok : Fleet.Ok segments world chunkTokens fleet)
    {descriptor : WhaleDescriptor} {launch : Nat}
    (committed : fleet.Committed descriptor launch) :
    ((fleet.entriesOf descriptor.seq).map (·.whale.cpRank)).Subperm (List.range descriptor.gang.length) ∧
      ((∀ rank ∈ descriptor.gang, ∃ entry ∈ fleet.entriesOf descriptor.seq, entry.rank = rank) →
        ((fleet.entriesOf descriptor.seq).map (·.whale.cpRank)).Perm
          (List.range descriptor.gang.length)) := by
  have mine : ∀ entry ∈ fleet.entriesOf descriptor.seq, descriptor.cpRankOf entry.rank =
      some entry.whale.cpRank := by
    intro entry inside
    obtain ⟨inside, same⟩ := List.mem_filter.mp inside
    simp only [decide_eq_true_eq] at same
    obtain ⟨entered, found⟩ := ok.entered_committed inside
    rw [← (ok.one_launch entered committed same).1]
    exact found
  have distinct : ((fleet.entriesOf descriptor.seq).map (·.whale.cpRank)).Nodup := by
    have once := ok.entered_once
    rw [List.Nodup, List.pairwise_map] at once ⊢
    refine (once.filter _).imp_of_mem fun {early late} inside insideLate apart same => apart ?_
    have found := mine early inside
    rw [same] at found
    rw [WhaleDescriptor.cpRankOf_inj found (mine late insideLate)]
    have seqEarly := (List.mem_filter.mp inside).2
    have seqLate := (List.mem_filter.mp insideLate).2
    simp only [decide_eq_true_eq] at seqEarly seqLate
    rw [seqEarly, seqLate]
  have inRange : ((fleet.entriesOf descriptor.seq).map (·.whale.cpRank)).Subperm
      (List.range descriptor.gang.length) := by
    refine distinct.subperm fun cpRank inside => ?_
    obtain ⟨entry, entered, rfl⟩ := List.mem_map.mp inside
    exact List.mem_range.mpr (List.findIdx?_eq_some_iff_getElem.mp (mine entry entered)).1
  refine ⟨inRange, fun all => ?_⟩
  refine (List.perm_ext_iff_of_nodup distinct List.nodup_range).mpr fun cpRank =>
    ⟨fun inside => inRange.subset inside, fun inside => ?_⟩
  have place : cpRank < descriptor.gang.length := List.mem_range.mp inside
  obtain ⟨entry, entered, same⟩ := all descriptor.gang[cpRank] (List.getElem_mem place)
  have found := mine entry entered
  have here : descriptor.cpRankOf descriptor.gang[cpRank] = some cpRank := by
    have all := congrArg (·[cpRank]?) (WhaleDescriptor.map_cpRankOf (ok.described committed).gang_nodup)
    simpa [place] using all
  rw [same, here] at found
  exact List.mem_map.mpr ⟨entry, entered, (Option.some.inj found).symm⟩

end Fleet.Ok

/-- Whale unanimity. -/
theorem FleetReach.unanimous {fleet : Fleet} (reach : FleetReach segments world chunkTokens fleet) :
    fleet.Unanimous segments world chunkTokens where
  sequencer_accepts := fun _ inside => reach.ok.sequencer_accepts inside
  member_accepts := fun _ _ _ head inTime => reach.ok.member_accepts head inTime
  launch_accepts := reach.ok.launch_accepts
  gang := by
    intro descriptor launch committed
    have described := reach.ok.described committed
    exact ⟨WhaleDescriptor.map_cpRankOf described.gang_nodup, described.gang_getLast, described.gang_length⟩
  one_launch := fun _ _ _ _ first second same => reach.ok.one_launch first second same
  launches_increase := by
    rintro one launch two later ⟨rank, _, told⟩ ⟨other, _, heard⟩ less
    exact reach.ok.sequenced.ordered _ _ _ _ _ _ told heard less
  entered_once := reach.ok.entered_once
  entered_committed := by
    intro entry inside
    obtain ⟨committed, found⟩ := reach.ok.entered_committed inside
    exact ⟨committed, reach.ok.punctual entry inside, WhaleDescriptor.mem_gang_of_cpRankOf found, found⟩
  cp_ranks := fun _ _ committed => reach.ok.cp_ranks committed
  cancelled_never := by
    intro rank seq cancelled entry inside same
    obtain ⟨other, _, committed⟩ := (reach.ok.entered_committed inside).1
    rw [same] at committed
    exact (reach.ok.sequenced.cancelled rank seq cancelled).2.2 other _ committed
  queue_empty := reach.queue_empty
  owed_once := reach.ok.owing.owed
  queue_rest := reach.ok.sequenced.queued
  answered_once := reach.ok.sequenced.answered

/-- A member that waits for its superstep gets to the launch, one by one. -/
theorem FleetReach.wait {fleet : Fleet} {rank : Nat} {whale : CommittedWhale} {rest : List CommittedWhale}
    (reach : FleetReach segments world chunkTokens fleet)
    (pending : (fleet.members rank).committed = whale :: rest)
    (launches : Nat) (ahead : fleet.counts rank + launches ≤ whale.launch) :
    FleetReach segments world chunkTokens
      { fleet with counts := Function.update fleet.counts rank (fleet.counts rank + launches) } := by
  induction launches with
  | zero =>
    rw [Nat.add_zero, Function.update_eq_self]
    exact reach
  | succ launches ih =>
    have earlier := ih (by omega)
    have free : (fleet.members rank).atLaunch (fleet.counts rank + launches) =
        .ok (fleet.members rank, .free) := by
      simp only [WhaleMember.atLaunch, pending]
      rw [if_neg (by omega), if_neg (by omega)]
    have step := @MemberStep.launch
      { fleet with counts := Function.update fleet.counts rank (fleet.counts rank + launches) } rank
        (fleet.members rank) 1
      (by simp only [Function.update_self]; exact free) (fun _ => rfl)
    have next := earlier.next (.member step)
    simpa only [Fleet.launched, Function.update_eq_self, Function.update_self, Function.update_idem,
      Nat.add_assoc] using next

theorem WhaleSequencer.onMessage_request {sequencer : WhaleSequencer} {request : WhaleRequest} {width : Nat}
    (idle : sequencer.gathering = none) (empty : sequencer.queue = [])
    (found : k3WhaleWidth segments request.prompt.length sequencer.world sequencer.chunkTokens = some width) :
    sequencer.onMessage segments (.request request) =
      .ok ({ sequencer with
          nextSeq := sequencer.nextSeq + 1
          gathering := some
            { descriptor := request.descriptor sequencer.nextSeq width sequencer.world
              replies := List.replicate
                (request.descriptor sequencer.nextSeq width sequencer.world).gang.length none } },
        broadcast (request.descriptor sequencer.nextSeq width sequencer.world).gang
          (.gather (request.descriptor sequencer.nextSeq width sequencer.world))) := by
  simp only [onMessage, startNextGather, idle, empty, List.nil_append, gatherFrom, found]

theorem WhaleMember.onMessage_gather {member : WhaleMember} {descriptor : WhaleDescriptor}
    {cpRank : Nat} (count : Nat)
    (valid : descriptor.verify = .ok ()) (found : descriptor.cpRankOf member.rank = some cpRank) :
    member.onMessage (.gather descriptor) count =
      .ok ({ member with armed := member.armed ++ [descriptor] },
        some (.ready descriptor.seq member.rank count)) := by
  simp [onMessage, valid, found, bind, Except.bind, pure, Except.pure]

/-- Two ranks run one whale of 5000 tokens, cut at 2508. -/
theorem quadratic_run {prompt : List Token} (long : prompt.length = 5000) :
    ∃ fleet, FleetReach (k3WhaleSegments quadratic k3ChunkBucket) 2 4096 fleet ∧
      fleet.entered.map (fun entry => (entry.rank, entry.at_)) = [(0, 4), (1, 4)] := by
  have start : FleetReach (k3WhaleSegments quadratic k3ChunkBucket) 2 4096
    (.new 2 4096 fun _ => 0) := .start _
  have posted := start.next (.member (.post _ { request := 7, poster := 1, prompt }))
  have width : k3WhaleWidth (k3WhaleSegments quadratic k3ChunkBucket) prompt.length 2 4096 = some 2 := by
    rw [long]
    decide +kernel
  have gathered := posted.next (@FleetStep.toSequencer _ _ [] _ _ _ rfl
    (WhaleSequencer.onMessage_request rfl rfl width))
  have valid := fun seq => WhaleRequest.descriptor_verify { request := 7, poster := 1, prompt } seq 2 2
  have armed := gathered.next (.member (@MemberStep.toMember _ 0 _ _ _ _ rfl (by rintro _ _ ⟨⟩)
    (WhaleMember.onMessage_gather _ (valid _) rfl)))
  have both := armed.next (.member (@MemberStep.toMember _ 1 _ _ _ _ rfl (by rintro _ _ ⟨⟩)
    (WhaleMember.onMessage_gather _ (valid _) rfl)))
  have reply := both.next (@FleetStep.toSequencer _ _ [] _ _ _ rfl rfl)
  have commit := reply.next (@FleetStep.toSequencer _ _ [] _ _ _ rfl rfl)
  have first := commit.next (.member (@MemberStep.toMember _ 0 _ _ _ _ rfl
    (by rintro _ _ ⟨⟩; exact (by decide : 0 < 4)) rfl))
  have told := first.next (.member (@MemberStep.toMember _ 1 _ _ _ _ rfl
    (by rintro _ _ ⟨⟩; exact (by decide : 0 < 4)) rfl))
  have waited := (@FleetReach.wait _ _ _ _ 0 _ _ told rfl 4 (by exact (by decide : 4 ≤ 4))).next
    (.member (@MemberStep.enter _ 0 _ _ rfl))
  have last := (@FleetReach.wait _ _ _ _ 1 _ _ waited rfl 4 (by exact (by decide : 4 ≤ 4))).next
    (.member (@MemberStep.enter _ 1 _ _ rfl))
  exact ⟨_, last, rfl⟩

theorem FleetReach.unanimous_two_ranks : ∃ fleet :
    Fleet, FleetReach (k3WhaleSegments quadratic k3ChunkBucket) 2 4096 fleet ∧
    fleet.entered.map (fun entry => (entry.rank, entry.at_)) = [(0, 4), (1, 4)] ∧
    fleet.Unanimous (k3WhaleSegments quadratic k3ChunkBucket) 2 4096 := by
  obtain ⟨fleet, reach, entered⟩ :=
    quadratic_run (List.length_replicate : (List.replicate 5000 (9 : Token)).length = 5000)
  exact ⟨fleet, reach, entered, reach.unanimous⟩

end PegaInfer.K3
