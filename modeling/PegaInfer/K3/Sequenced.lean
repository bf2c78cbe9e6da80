import PegaInfer.K3.Fleet

namespace PegaInfer.K3

/-- A message that tells the poster of whale `seq` how its post ended. -/
def WhaleToMember.answers (seq : Nat) : WhaleToMember → Bool
  | .gather _ => false
  | .commit named _ => named = seq
  | .cancel named => named = seq

/-- The descriptor of the whale its seq numbers: the sequencer numbers requests in
the order it takes them in. -/
def Described (segments : (total width chunkTokens : Nat) → List (Nat × Nat)) (world chunkTokens : Nat)
    (received : List WhaleRequest) (descriptor : WhaleDescriptor) : Prop :=
  ∃ request width, received[descriptor.seq]? = some request ∧
    k3WhaleWidth segments request.prompt.length world chunkTokens = some width ∧
    descriptor = request.descriptor descriptor.seq width world

/-- What the sequencer's state says about everything it has sent. -/
structure Sequenced (segments : (total width chunkTokens : Nat) → List (Nat × Nat)) (world chunkTokens : Nat)
    (sequencer : WhaleSequencer) (received : List WhaleRequest) (sent : List WhaleOutbound) : Prop where
  sameWorld : sequencer.world = world
  sameChunk : sequencer.chunkTokens = chunkTokens
  queued : sequencer.queue = received.drop sequencer.nextSeq
  numbered : sequencer.nextSeq ≤ received.length
  latest : ∀ gathering, sequencer.gathering = some gathering →
    gathering.descriptor.seq + 1 = sequencer.nextSeq ∧
      Described segments world chunkTokens received gathering.descriptor
  gathered : ∀ rank descriptor, { to_ := rank, message := .gather descriptor } ∈ sent →
    descriptor.seq < sequencer.nextSeq ∧ Described segments world chunkTokens received descriptor ∧
      rank ∈ descriptor.gang
  committed : ∀ rank seq launch, { to_ := rank, message := .commit seq launch } ∈ sent →
    seq < sequencer.nextSeq ∧ sequencer.gatheringSeq ≠ some seq ∧
      ∃ floor, sequencer.committedFloor = some floor ∧ launch ≤ floor
  cancelled : ∀ rank seq, { to_ := rank, message := .cancel seq } ∈ sent →
    seq < sequencer.nextSeq ∧ sequencer.gatheringSeq ≠ some seq ∧
      ∀ other launch, { to_ := other, message := .commit seq launch } ∉ sent
  agreed : ∀ rank seq launch other later,
    { to_ := rank, message := .commit seq launch } ∈ sent →
      { to_ := other, message := .commit seq later } ∈ sent →
    launch = later
  ordered : ∀ rank seq launch other next later,
    { to_ := rank, message := .commit seq launch } ∈ sent →
      { to_ := other, message := .commit next later } ∈ sent →
    seq < next → launch < later
  answered : ∀ seq request, received[seq]? = some request → seq < sequencer.nextSeq →
    (mailFor request.poster sent).countP (WhaleToMember.answers seq) =
      if sequencer.gatheringSeq = some seq then 0 else 1

variable {segments : (total width chunkTokens : Nat) → List (Nat × Nat)} {world chunkTokens : Nat}

theorem Described.grow {received : List WhaleRequest} {descriptor : WhaleDescriptor}
    (described : Described segments world chunkTokens received descriptor) (later : List WhaleRequest) :
    Described segments world chunkTokens (received ++ later) descriptor := by
  obtain ⟨request, width, numbered, found, shape⟩ := described
  have inside : descriptor.seq < received.length := (List.getElem?_eq_some_iff.mp numbered).1
  exact ⟨request, width, by rw [List.getElem?_append_left inside, numbered], found, shape⟩

/-- A seq has one descriptor. -/
theorem Described.unique {received : List WhaleRequest} {one two : WhaleDescriptor}
    (first : Described segments world chunkTokens received one)
    (second : Described segments world chunkTokens received two)
    (same : one.seq = two.seq) : one = two := by
  obtain ⟨request, width, numbered, found, shape⟩ := first
  obtain ⟨other, wide, numbered', found', shape'⟩ := second
  rw [same] at numbered
  obtain rfl := Option.some.inj (numbered.symm.trans numbered')
  obtain rfl := Option.some.inj (found.symm.trans found')
  rw [shape, shape', same]

theorem Described.gang_nodup {received : List WhaleRequest} {descriptor : WhaleDescriptor}
    (described : Described segments world chunkTokens received descriptor) : descriptor.gang.Nodup := by
  obtain ⟨request, width, _, _, shape⟩ := described
  rw [shape]
  exact k3WhaleGang_nodup ..

theorem Described.gang_getLast {received : List WhaleRequest} {descriptor : WhaleDescriptor}
    (described : Described segments world chunkTokens received descriptor) :
    descriptor.gang.getLast? = some descriptor.poster := by
  obtain ⟨request, width, _, _, shape⟩ := described
  rw [shape]
  exact k3WhaleGang_getLast ..

theorem Described.poster_mem {received : List WhaleRequest} {descriptor : WhaleDescriptor}
    (described : Described segments world chunkTokens received descriptor) :
    descriptor.poster ∈ descriptor.gang :=
  List.mem_of_getLast? described.gang_getLast

/-- What the sequencer builds passes the check of a member. -/
theorem WhaleRequest.descriptor_verify (request : WhaleRequest) (seq width world : Nat) :
    (request.descriptor seq width world).verify = .ok () := by
  have last : (request.descriptor seq width world).gang.getLast? =
      some (request.descriptor seq width world).poster :=
    k3WhaleGang_getLast ..
  have hash : k3WhalePromptHash (request.descriptor seq width world).prompt =
    (request.descriptor seq width world).promptHash := rfl
  simp only [WhaleDescriptor.verify, hash, last, ne_eq, not_true_eq_false, if_false]

theorem Described.gang_length {received : List WhaleRequest} {descriptor : WhaleDescriptor}
    (described : Described segments world chunkTokens received descriptor)
    (inWorld : descriptor.poster < world) :
    k3WhaleWidth segments descriptor.prompt.length world chunkTokens = some descriptor.gang.length := by
  obtain ⟨request, width, _, found, shape⟩ := described
  have bounds := k3WhaleWidth_bounds found
  have poster : descriptor.poster = request.poster := by rw [shape]; rfl
  have prompt : descriptor.prompt = request.prompt := by rw [shape]; rfl
  have gang : descriptor.gang = k3WhaleGang request.poster width world := by rw [shape]; rfl
  rw [poster] at inWorld
  rw [prompt, gang, found, k3WhaleGang_length inWorld (by omega) bounds.2]

namespace Sequenced

variable {sequencer : WhaleSequencer} {received : List WhaleRequest} {sent : List WhaleOutbound}

theorem new (world chunkTokens : Nat) :
    Sequenced segments world chunkTokens (.new world chunkTokens) [] [] where
  sameWorld := rfl
  sameChunk := rfl
  queued := rfl
  numbered := le_rfl
  latest := by intro gathering open_; cases open_
  gathered := by intro rank descriptor member; cases member
  committed := by intro rank seq launch member; cases member
  cancelled := by intro rank seq member; cases member
  agreed := by intro rank seq launch other later member; cases member
  ordered := by intro rank seq launch other next later member; cases member
  answered := by intro seq request numbered; cases numbered

theorem receive (ok : Sequenced segments world chunkTokens sequencer received sent) (request : WhaleRequest) :
    Sequenced segments world chunkTokens { sequencer with queue := sequencer.queue ++ [request] }
      (received ++ [request]) sent where
  sameWorld := ok.sameWorld
  sameChunk := ok.sameChunk
  queued := by
    rw [List.drop_append_of_le_length ok.numbered, ok.queued]
  numbered := by
    rw [List.length_append]
    exact ok.numbered.trans (Nat.le_add_right _ _)
  latest := fun gathering open_ => ⟨(ok.latest gathering open_).1, (ok.latest gathering open_).2.grow _⟩
  gathered := fun rank descriptor member =>
    ⟨(ok.gathered rank descriptor member).1, (ok.gathered rank descriptor member).2.1.grow _,
      (ok.gathered rank descriptor member).2.2⟩
  committed := ok.committed
  cancelled := ok.cancelled
  agreed := ok.agreed
  ordered := ok.ordered
  answered := by
    intro seq asked numbered below
    rw [List.getElem?_append_left (below.trans_le ok.numbered)] at numbered
    exact ok.answered seq asked numbered below

theorem reply (ok : Sequenced segments world chunkTokens sequencer received sent) {gathering : Gathering}
    (open_ : sequencer.gathering = some gathering) (replies : List (Option Nat)) :
    Sequenced segments world chunkTokens
      { sequencer with gathering := some { gathering with replies } } received sent := by
  have same : ({ sequencer with gathering := some { gathering with replies } } :
    WhaleSequencer).gatheringSeq =
      sequencer.gatheringSeq := by
    simp only [WhaleSequencer.gatheringSeq, open_, Option.map_some]
  refine { ok with latest := ?_, committed := ?_, cancelled := ?_, answered := ?_ }
  · rintro current now
    cases now
    exact ok.latest gathering open_
  · rw [same]
    exact ok.committed
  · rw [same]
    exact ok.cancelled
  · rw [same]
    exact ok.answered

/-- Nothing sent so far answers a whale that has no number yet. -/
theorem unanswered (ok : Sequenced segments world chunkTokens sequencer received sent)
    {seq : Nat} (rank : Nat)
    (fresh : sequencer.nextSeq ≤ seq) : (mailFor rank sent).countP (WhaleToMember.answers seq) = 0 := by
  rw [List.countP_eq_zero]
  intro message member
  rw [mem_mailFor] at member
  cases message with
  | gather => exact Bool.false_ne_true
  | commit named launch =>
    have below := (ok.committed rank named launch member).1
    simp only [WhaleToMember.answers, decide_eq_true_eq]
    omega
  | cancel named =>
    have below := (ok.cancelled rank named member).1
    simp only [WhaleToMember.answers, decide_eq_true_eq]
    omega

/-- The head of the queue is the next request to number. -/
theorem head (ok : Sequenced segments world chunkTokens sequencer received sent) {request : WhaleRequest}
    {queue : List WhaleRequest} (waiting : sequencer.queue = request :: queue) :
    received[sequencer.nextSeq]? = some request ∧ queue = received.drop (sequencer.nextSeq + 1) ∧
      sequencer.nextSeq + 1 ≤ received.length := by
  have dropped := ok.queued.symm.trans waiting
  have first : received[sequencer.nextSeq]? = some request := by
    rw [← List.head?_drop, dropped, List.head?_cons]
  refine ⟨first, ?_, (List.getElem?_eq_some_iff.mp first).1⟩
  rw [← List.tail_drop, dropped, List.tail_cons]

theorem latest_seq (ok : Sequenced segments world chunkTokens sequencer received sent) {seq : Nat}
    (open_ : sequencer.gatheringSeq = some seq) : seq + 1 = sequencer.nextSeq := by
  obtain ⟨gathering, now, rfl⟩ := Option.map_eq_some_iff.mp open_
  exact (ok.latest gathering now).1

/-- One message, sent to some ranks while the sequencer moves on: a commit closes
the whale that is gathering and lies past the floor, and a cancel closes it or
refuses a new number. -/
theorem send (ok : Sequenced segments world chunkTokens sequencer received sent) {next : WhaleSequencer}
    {outbound : List WhaleOutbound} (message : WhaleToMember)
    (uniform : ∀ out ∈ outbound, out.message = message)
    (sameWorld : next.world = world) (sameChunk : next.chunkTokens = chunkTokens)
    (queued : next.queue = received.drop next.nextSeq) (numbered : next.nextSeq ≤ received.length)
    (latest : ∀ gathering, next.gathering = some gathering →
      gathering.descriptor.seq + 1 = next.nextSeq ∧
        Described segments world chunkTokens received gathering.descriptor)
    (grows : sequencer.nextSeq ≤ next.nextSeq)
    (closed : ∀ seq, seq < sequencer.nextSeq → sequencer.gatheringSeq ≠ some seq →
      next.gatheringSeq ≠ some seq)
    (floors : ∀ floor, sequencer.committedFloor = some floor →
      ∃ higher, next.committedFloor = some higher ∧ floor ≤ higher)
    (gathers : ∀ descriptor, message = .gather descriptor → descriptor.seq < next.nextSeq ∧
      Described segments world chunkTokens received descriptor ∧ ∀ out ∈ outbound, out.to_ ∈ descriptor.gang)
    (commits : ∀ seq launch, message = .commit seq launch →
      next.gatheringSeq = none ∧ sequencer.gatheringSeq = some seq ∧
      next.committedFloor = some launch ∧ ∀ floor, sequencer.committedFloor = some floor → floor < launch)
    (cancels : ∀ seq, message = .cancel seq → next.gatheringSeq = none ∧ seq < next.nextSeq ∧
      (sequencer.gatheringSeq = some seq ∨ sequencer.nextSeq ≤ seq))
    (answered : ∀ seq request, received[seq]? = some request → seq < next.nextSeq →
      (mailFor request.poster (sent ++ outbound)).countP (WhaleToMember.answers seq) =
        if next.gatheringSeq = some seq then 0 else 1) :
    Sequenced segments world chunkTokens next received (sent ++ outbound) := by
  have older : ∀ rank told, { to_ := rank, message := told } ∈ sent ++ outbound →
      { to_ := rank, message := told } ∈ sent ∨ message = told ∧
        { to_ := rank, message := told } ∈ outbound := by
    intro rank told member
    rcases List.mem_append.mp member with old | new
    · exact .inl old
    · exact .inr ⟨(uniform _ new).symm, new⟩
  refine ⟨sameWorld, sameChunk, queued, numbered, latest, ?gathered, ?committed, ?cancelled,
    ?agreed, ?ordered, answered⟩
  case gathered =>
    intro rank descriptor member
    rcases older _ _ member with old | ⟨new, out⟩
    · obtain ⟨below, described, inGang⟩ := ok.gathered rank descriptor old
      exact ⟨below.trans_le grows, described, inGang⟩
    · obtain ⟨below, described, inGang⟩ := gathers descriptor new
      exact ⟨below, described, inGang _ out⟩
  case committed =>
    intro rank seq launch member
    rcases older _ _ member with old | ⟨new, _⟩
    · obtain ⟨below, notOpen, floor, now, le⟩ := ok.committed rank seq launch old
      obtain ⟨higher, next_, above⟩ := floors floor now
      exact ⟨below.trans_le grows, closed seq below notOpen, higher, next_, le.trans above⟩
    · obtain ⟨shut, open_, floor, _⟩ := commits seq launch new
      have number := ok.latest_seq open_
      exact ⟨by omega, by rw [shut]; exact (Option.some_ne_none _).symm, launch, floor, le_rfl⟩
  case cancelled =>
    intro rank seq member
    rcases older _ _ member with old | ⟨new, _⟩
    · obtain ⟨below, notOpen, never⟩ := ok.cancelled rank seq old
      refine ⟨below.trans_le grows, closed seq below notOpen, fun other launch committed => ?_⟩
      rcases older _ _ committed with before | ⟨fresh, _⟩
      · exact never other launch before
      · exact notOpen (commits seq launch fresh).2.1
    · obtain ⟨shut, below, opened⟩ := cancels seq new
      refine ⟨below, by rw [shut]; exact (Option.some_ne_none _).symm, fun other launch committed => ?_⟩
      rcases older _ _ committed with before | ⟨fresh, _⟩
      · obtain ⟨known, notOpen, _⟩ := ok.committed other seq launch before
        exact opened.elim notOpen (by omega)
      · cases new.symm.trans fresh
  case agreed =>
    intro rank seq launch other later one two
    rcases older _ _ one with one | ⟨one, _⟩
    · rcases older _ _ two with two | ⟨two, _⟩
      · exact ok.agreed rank seq launch other later one two
      · exact absurd (commits seq later two).2.1 (ok.committed rank seq launch one).2.1
    · rcases older _ _ two with two | ⟨two, _⟩
      · exact absurd (commits seq launch one).2.1 (ok.committed other seq later two).2.1
      · cases one.symm.trans two
        rfl
  case ordered =>
    intro rank seq launch other newer later one two less
    rcases older _ _ one with one | ⟨one, _⟩
    · obtain ⟨_, _, floor, now, le⟩ := ok.committed rank seq launch one
      rcases older _ _ two with two | ⟨two, _⟩
      · exact ok.ordered rank seq launch other newer later one two less
      · exact le.trans_lt ((commits newer later two).2.2.2 floor now)
    · have number := ok.latest_seq (commits seq launch one).2.1
      rcases older _ _ two with two | ⟨two, _⟩
      · have := (ok.committed other newer later two).1
        omega
      · cases one.symm.trans two
        exact absurd less (Nat.lt_irrefl _)

theorem refuse (ok : Sequenced segments world chunkTokens sequencer received sent) {request : WhaleRequest}
    {queue : List WhaleRequest} (idle : sequencer.gathering = none)
    (waiting : sequencer.queue = request :: queue) :
    Sequenced segments world chunkTokens { sequencer with nextSeq := sequencer.nextSeq + 1, queue } received
      (sent ++ [{ to_ := request.poster, message := .cancel sequencer.nextSeq }]) := by
  obtain ⟨first, rest, inside⟩ := ok.head waiting
  have before : sequencer.gatheringSeq = none := by
    simp only [WhaleSequencer.gatheringSeq, idle, Option.map_none]
  have quiet : ({ sequencer with nextSeq := sequencer.nextSeq + 1, queue } :
    WhaleSequencer).gatheringSeq = none := before
  refine ok.send (.cancel sequencer.nextSeq) ?_ ok.sameWorld ok.sameChunk rest inside ?_ (Nat.le_succ _)
    (fun seq _ notOpen => notOpen) (fun floor now => ⟨floor, now, le_rfl⟩) ?_ ?_ ?_ ?_
  · intro out member
    rw [List.mem_singleton.mp member]
  · intro gathering open_
    cases idle.symm.trans open_
  · intro descriptor other
    cases other
  · intro seq launch other
    cases other
  · intro seq same
    cases same
    exact ⟨quiet, Nat.lt_succ_self _, .inr le_rfl⟩
  · intro seq asked numbered below
    rw [quiet, if_neg (Option.some_ne_none _).symm, mailFor_append, List.countP_append]
    by_cases same : seq = sequencer.nextSeq
    · subst same
      cases first.symm.trans numbered
      rw [ok.unanswered _ le_rfl]
      simp [mailFor, WhaleToMember.answers]
    · have earlier := ok.answered seq asked numbered (by change seq < sequencer.nextSeq + 1 at below; omega)
      rw [before, if_neg (Option.some_ne_none _).symm] at earlier
      rw [earlier, Nat.add_eq_left, List.countP_eq_zero]
      intro message member
      rw [mem_mailFor, List.mem_singleton] at member
      obtain rfl : message = .cancel sequencer.nextSeq := congrArg WhaleOutbound.message member
      simp only [WhaleToMember.answers, decide_eq_true_eq]
      exact fun eq => same eq.symm

theorem gather (ok : Sequenced segments world chunkTokens sequencer received sent) {request : WhaleRequest}
    {queue : List WhaleRequest} {width : Nat} {descriptor : WhaleDescriptor} (replies : List (Option Nat))
    (idle : sequencer.gathering = none) (waiting : sequencer.queue = request :: queue)
    (found : k3WhaleWidth segments request.prompt.length sequencer.world sequencer.chunkTokens = some width)
    (shape : descriptor = request.descriptor sequencer.nextSeq width sequencer.world) :
    Sequenced segments world chunkTokens
      { sequencer with
        nextSeq := sequencer.nextSeq + 1
        gathering := some { descriptor, replies }
        queue } received
      (sent ++ broadcast descriptor.gang (.gather descriptor)) := by
  obtain ⟨first, rest, inside⟩ := ok.head waiting
  have number : descriptor.seq = sequencer.nextSeq := by rw [shape]; rfl
  have described : Described segments world chunkTokens received descriptor := by
    refine ⟨request, width, by rw [number, first], by rw [← ok.sameWorld, ← ok.sameChunk, found], ?_⟩
    rw [number, ← ok.sameWorld]
    exact shape
  have before : sequencer.gatheringSeq = none := by
    simp only [WhaleSequencer.gatheringSeq, idle, Option.map_none]
  refine ok.send (.gather descriptor) (fun out member =>
    (mem_broadcast.mp member).2) ok.sameWorld ok.sameChunk
    rest inside ?_ (Nat.le_succ _) ?_ (fun floor now => ⟨floor, now, le_rfl⟩) ?_ ?_ ?_ ?_
  · intro gathering open_
    cases open_
    exact ⟨congrArg (· + 1) number, described⟩
  · intro seq below _
    simp only [WhaleSequencer.gatheringSeq, Option.map_some, ne_eq, Option.some.injEq]
    omega
  · intro other same
    cases same
    exact ⟨by rw [number]; exact Nat.lt_succ_self _, described, fun out member => (mem_broadcast.mp member).1⟩
  · intro seq launch other
    cases other
  · intro seq other
    cases other
  · intro seq asked numbered below
    have silent : (mailFor asked.poster (broadcast descriptor.gang (.gather descriptor))).countP
        (WhaleToMember.answers seq) = 0 := by
      rw [List.countP_eq_zero]
      intro message member
      rw [mem_mailFor, mem_broadcast] at member
      obtain rfl : message = .gather descriptor := member.2
      exact Bool.false_ne_true
    rw [mailFor_append, List.countP_append, silent, Nat.add_zero]
    simp only [WhaleSequencer.gatheringSeq, Option.map_some, Option.some.injEq, number]
    by_cases same : seq = sequencer.nextSeq
    · rw [ok.unanswered _ same.ge, if_pos same.symm]
    · have earlier := ok.answered seq asked numbered (by change seq < sequencer.nextSeq + 1 at below; omega)
      rw [before, if_neg (Option.some_ne_none _).symm] at earlier
      rw [earlier, if_neg (fun eq => same eq.symm)]

/-- A closing message of the gathering whale answers it, and answers no other. -/
theorem answered_close (ok : Sequenced segments world chunkTokens sequencer received sent)
    {gathering : Gathering}
    {message : WhaleToMember} (open_ : sequencer.gathering = some gathering)
    (closing : ∀ seq, message.answers seq = decide (gathering.descriptor.seq = seq)) {seq : Nat}
    {request : WhaleRequest}
    (numbered : received[seq]? = some request) (below : seq < sequencer.nextSeq) :
    (mailFor request.poster (sent ++ broadcast gathering.descriptor.gang message)).countP
      (WhaleToMember.answers seq) = 1 := by
  obtain ⟨_, described⟩ := ok.latest gathering open_
  have earlier := ok.answered seq request numbered below
  simp only [WhaleSequencer.gatheringSeq, open_, Option.map_some, Option.some.injEq] at earlier
  rw [mailFor_append, List.countP_append, earlier, mailFor_broadcast described.gang_nodup]
  by_cases same : gathering.descriptor.seq = seq
  · have poster : request.poster = gathering.descriptor.poster := by
      obtain ⟨other, width, numbered', _, shape⟩ := described
      rw [same] at numbered'
      cases numbered.symm.trans numbered'
      rw [shape]
      rfl
    rw [if_pos same, if_pos (poster ▸ described.poster_mem)]
    simp only [List.countP_singleton, closing, same, decide_true, if_true]
  · rw [if_neg same]
    split
    · simp only [List.countP_singleton, closing, same, decide_false, Bool.false_eq_true, if_false]
    · rfl

theorem commit (ok : Sequenced segments world chunkTokens sequencer received sent) {gathering : Gathering}
    (open_ : sequencer.gathering = some gathering) (highest : Nat) :
    Sequenced segments world chunkTokens
      { sequencer with gathering := none, committedFloor := some (sequencer.launchAfter highest) } received
      (sent ++ broadcast gathering.descriptor.gang
        (.commit gathering.descriptor.seq (sequencer.launchAfter highest))) := by
  have before : sequencer.gatheringSeq = some gathering.descriptor.seq := by
    simp only [WhaleSequencer.gatheringSeq, open_, Option.map_some]
  have above : ∀ floor, sequencer.committedFloor = some floor → floor < sequencer.launchAfter highest := by
    intro floor now
    simp only [WhaleSequencer.launchAfter, now, Option.elim_some]
    omega
  refine ok.send (.commit gathering.descriptor.seq (sequencer.launchAfter highest))
    (fun out member => (mem_broadcast.mp member).2) ok.sameWorld ok.sameChunk ok.queued ok.numbered ?_ le_rfl
    (fun _ _ _ => (Option.some_ne_none _).symm) (fun floor now => ⟨_, rfl, (above floor now).le⟩) ?_ ?_ ?_ ?_
  · intro gathering shut
    cases shut
  · intro descriptor other
    cases other
  · intro seq launch same
    cases same
    exact ⟨rfl, before, rfl, above⟩
  · intro seq other
    cases other
  · intro seq request numbered below
    rw [ok.answered_close open_ (fun _ => rfl) numbered below]
    rfl

theorem cancel (ok : Sequenced segments world chunkTokens sequencer received sent) {gathering : Gathering}
    (open_ : sequencer.gathering = some gathering) :
    Sequenced segments world chunkTokens { sequencer with gathering := none } received
      (sent ++ broadcast gathering.descriptor.gang (.cancel gathering.descriptor.seq)) := by
  have before : sequencer.gatheringSeq = some gathering.descriptor.seq := by
    simp only [WhaleSequencer.gatheringSeq, open_, Option.map_some]
  refine ok.send (.cancel gathering.descriptor.seq)
    (fun out member => (mem_broadcast.mp member).2) ok.sameWorld
    ok.sameChunk ok.queued ok.numbered ?_ le_rfl (fun _ _ _ => (Option.some_ne_none _).symm)
    (fun floor now => ⟨floor, now, le_rfl⟩) ?_ ?_ ?_ ?_
  · intro gathering shut
    cases shut
  · intro descriptor other
    cases other
  · intro seq launch other
    cases other
  · intro seq same
    cases same
    have number := (ok.latest gathering open_).1
    exact ⟨rfl, by change gathering.descriptor.seq < sequencer.nextSeq; omega, .inl before⟩
  · intro seq request numbered below
    rw [ok.answered_close open_ (fun _ => rfl) numbered below]
    rfl

end Sequenced

end PegaInfer.K3
