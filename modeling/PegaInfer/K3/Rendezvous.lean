import PegaInfer.K3.Listening

namespace PegaInfer.K3

def WhaleToSequencer.isReady (seq rank : Nat) : WhaleToSequencer → Bool
  | .request _ => false
  | .ready named from_ _ => named = seq ∧ from_ = rank

def WhaleToMember.isGather (seq : Nat) : WhaleToMember → Bool
  | .gather descriptor => descriptor.seq = seq
  | .commit .. => false
  | .cancel _ => false

/-- Whether the sequencer has this rank's reply, as a count. -/
def Gathering.repliedBy (gathering : Gathering) (rank : Nat) : Nat :=
  if ((gathering.descriptor.cpRankOf rank).bind (gathering.replies.getD · none)).isSome then 1 else 0

/-- Every member of the gathering whale owes one reply: the sequencer has it, or it
is under way, or its gather is. -/
structure Owing (sequencer : WhaleSequencer) (toSequencer : List WhaleToSequencer)
    (toMember : Nat → List WhaleToMember) :
    Prop where
  known : ∀ seq rank count, .ready seq rank count ∈ toSequencer → seq < sequencer.nextSeq
  sized : ∀ gathering, sequencer.gathering = some gathering →
    gathering.replies.length = gathering.descriptor.gang.length
  owed : ∀ gathering, sequencer.gathering = some gathering → ∀ rank,
    gathering.repliedBy rank + toSequencer.countP (WhaleToSequencer.isReady gathering.descriptor.seq rank) +
      (toMember rank).countP (WhaleToMember.isGather gathering.descriptor.seq) =
        if rank ∈ gathering.descriptor.gang then 1 else 0

/-- The supersteps a rank has entered. -/
def Fleet.enteredBy (fleet : Fleet) (rank : Nat) : List CommittedWhale :=
  (fleet.entered.filter (·.rank = rank)).map (·.whale)

def Fleet.Listens (fleet : Fleet) (rank : Nat) : Prop :=
  ∃ heard talk final, Listening rank fleet.sequencer (mailFor rank fleet.sent)
    (fleet.toMember rank) (fleet.members rank)
    (fleet.counts rank) (fleet.enteredBy rank) heard talk final

/-- The invariant of the fleet. -/
structure Fleet.Ok (segments : (total width chunkTokens : Nat) → List (Nat × Nat)) (world chunkTokens : Nat)
    (fleet : Fleet) : Prop where
  sequenced : Sequenced segments world chunkTokens fleet.sequencer fleet.received fleet.sent
  listens : ∀ rank, fleet.Listens rank
  owing : Owing fleet.sequencer fleet.toSequencer fleet.toMember
  punctual : ∀ entry ∈ fleet.entered, entry.at_ = entry.whale.launch

namespace Owing

variable {sequencer : WhaleSequencer} {toSequencer earlier later : List WhaleToSequencer}
  {toMember : Nat → List WhaleToMember}

/-- A request in the channel owes nothing. -/
theorem post (ok : Owing sequencer toSequencer toMember) (request : WhaleRequest) :
    Owing sequencer (toSequencer ++ [.request request]) toMember := by
  refine ⟨?_, ok.sized, ?_⟩
  · intro seq rank count member
    rcases List.mem_append.mp member with old | new
    · exact ok.known seq rank count old
    · cases List.mem_singleton.mp new
  · intro gathering open_ rank
    rw [List.countP_append]
    exact ok.owed gathering open_ rank

theorem receive {request : WhaleRequest}
    (ok : Owing sequencer (earlier ++ .request request :: later) toMember)
    (queue : List WhaleRequest) : Owing { sequencer with queue } (earlier ++ later) toMember := by
  refine ⟨?_, ok.sized, ?_⟩
  · intro seq rank count member
    refine ok.known seq rank count ?_
    rcases List.mem_append.mp member with old | new
    · exact List.mem_append_left _ old
    · exact List.mem_append_right _ (List.mem_cons_of_mem _ new)
  · intro gathering open_ rank
    have owed := ok.owed gathering open_ rank
    rw [List.countP_append, List.countP_cons] at owed
    rw [List.countP_append]
    exact owed

theorem stale {seq rank count : Nat}
    (ok : Owing sequencer (earlier ++ .ready seq rank count :: later) toMember)
    (other : ∀ gathering, sequencer.gathering = some gathering → gathering.descriptor.seq ≠ seq) :
    Owing sequencer (earlier ++ later) toMember := by
  refine ⟨?_, ok.sized, ?_⟩
  · intro named from_ launched member
    refine ok.known named from_ launched ?_
    rcases List.mem_append.mp member with old | new
    · exact List.mem_append_left _ old
    · exact List.mem_append_right _ (List.mem_cons_of_mem _ new)
  · intro gathering open_ from_
    have owed := ok.owed gathering open_ from_
    have not_ : ¬(WhaleToSequencer.isReady gathering.descriptor.seq from_ (.ready seq rank count) =
        true) := by
      simp only [WhaleToSequencer.isReady, decide_eq_true_eq]
      exact fun both => other gathering open_ both.1.symm
    rw [List.countP_append, List.countP_cons_of_neg not_] at owed
    rw [List.countP_append]
    exact owed

end Owing

/-- Two ranks have different CP ranks. -/
theorem WhaleDescriptor.cpRankOf_inj {descriptor : WhaleDescriptor} {one two cpRank : Nat}
    (first : descriptor.cpRankOf one = some cpRank)
    (second : descriptor.cpRankOf two = some cpRank) : one = two := by
  obtain ⟨_, here, _⟩ := List.findIdx?_eq_some_iff_getElem.mp first
  obtain ⟨_, there, _⟩ := List.findIdx?_eq_some_iff_getElem.mp second
  simp only [decide_eq_true_eq] at here there
  exact here.symm.trans there

theorem Gathering.repliedBy_set_self {gathering : Gathering} {rank cpRank : Nat} (count : Nat)
    (found : gathering.descriptor.cpRankOf rank = some cpRank) (inside : cpRank < gathering.replies.length) :
    { gathering with replies := gathering.replies.set cpRank (some count) }.repliedBy rank = 1 := by
  simp [repliedBy, found, List.getD_eq_getElem?_getD, List.getElem?_set_self inside]

theorem Gathering.repliedBy_set_other {gathering : Gathering} {rank other cpRank : Nat} (count : Nat)
    (found : gathering.descriptor.cpRankOf rank = some cpRank) (different : other ≠ rank) :
    { gathering with replies := gathering.replies.set cpRank (some count) }.repliedBy other =
      gathering.repliedBy other := by
  simp only [repliedBy]
  cases position : gathering.descriptor.cpRankOf other with
  | none => rfl
  | some place =>
    have apart : cpRank ≠ place := by
      rintro rfl
      exact different (WhaleDescriptor.cpRankOf_inj position found)
    simp only [Option.bind_some, List.getD_eq_getElem?_getD, List.getElem?_set_ne apart]

namespace Owing

variable {sequencer : WhaleSequencer} {toSequencer earlier later : List WhaleToSequencer}
  {toMember : Nat → List WhaleToMember}

theorem reply {gathering : Gathering} {rank count cpRank : Nat}
    (ok : Owing sequencer (earlier ++ .ready gathering.descriptor.seq rank count :: later) toMember)
    (open_ : sequencer.gathering = some gathering) (found : gathering.descriptor.cpRankOf rank = some cpRank)
    (silent : gathering.replies.getD cpRank none = none) :
    Owing
      { sequencer with
        gathering := some { gathering with replies := gathering.replies.set cpRank (some count) } }
      (earlier ++ later) toMember := by
  refine ⟨?_, ?_, ?_⟩
  · intro named from_ launched member
    refine ok.known named from_ launched ?_
    rcases List.mem_append.mp member with old | new
    · exact List.mem_append_left _ old
    · exact List.mem_append_right _ (List.mem_cons_of_mem _ new)
  · intro current now
    cases now
    rw [List.length_set]
    exact ok.sized gathering open_
  · intro current now from_
    cases now
    have owed := ok.owed gathering open_ from_
    rw [List.countP_append] at owed ⊢
    by_cases same : from_ = rank
    · subst same
      have inside : cpRank < gathering.replies.length := by
        rw [ok.sized gathering open_]
        exact (List.findIdx?_eq_some_iff_getElem.mp found).1
      have before : gathering.repliedBy from_ = 0 := by
        simp only [Gathering.repliedBy, found, Option.bind_some, silent, Option.isSome_none,
          Bool.false_eq_true, if_false]
      have this_ : WhaleToSequencer.isReady gathering.descriptor.seq from_
          (.ready gathering.descriptor.seq from_ count) = true := by
        simp only [WhaleToSequencer.isReady, and_self, decide_true]
      rw [List.countP_cons_of_pos this_, before] at owed
      rw [Gathering.repliedBy_set_self count found inside]
      simp only
      omega
    · have not_ : ¬(WhaleToSequencer.isReady gathering.descriptor.seq from_
        (.ready gathering.descriptor.seq rank count) = true) := by
        simp only [WhaleToSequencer.isReady, decide_eq_true_eq]
        exact fun both => same both.2.symm
      rw [List.countP_cons_of_neg not_] at owed
      rw [Gathering.repliedBy_set_other count found same]
      exact owed

/-- Nothing is owed while no whale gathers. -/
theorem idle (ok : Owing sequencer toSequencer toMember) {next : WhaleSequencer}
    (grows : sequencer.nextSeq ≤ next.nextSeq)
    (shut : next.gathering = none) (channels : Nat → List WhaleToMember) :
    Owing next toSequencer channels := by
  refine ⟨fun seq rank count member => (ok.known seq rank count member).trans_le grows, ?_, ?_⟩
  · intro gathering open_
    cases shut.symm.trans open_
  · intro gathering open_
    cases shut.symm.trans open_

theorem gather (ok : Owing sequencer toSequencer toMember) {descriptor : WhaleDescriptor}
    {queue : List WhaleRequest}
    (number : descriptor.seq = sequencer.nextSeq) (distinct : descriptor.gang.Nodup)
    (older : ∀ rank named, .gather named ∈ toMember rank → named.seq < sequencer.nextSeq) :
    Owing
      { sequencer with
        nextSeq := sequencer.nextSeq + 1
        gathering := some { descriptor, replies := List.replicate descriptor.gang.length none }
        queue }
      toSequencer (fun rank => toMember rank ++
        mailFor rank (broadcast descriptor.gang (.gather descriptor))) := by
  refine ⟨fun seq rank count member => (ok.known seq rank count member).trans (Nat.lt_succ_self _), ?_, ?_⟩
  · intro gathering now
    cases now
    rw [List.length_replicate]
  · intro gathering now rank
    cases now
    have unreplied : ({ descriptor, replies := List.replicate descriptor.gang.length none } :
        Gathering).repliedBy rank = 0 := by
      simp only [Gathering.repliedBy]
      cases descriptor.cpRankOf rank with
      | none => rfl
      | some place =>
        have empty : (List.replicate descriptor.gang.length (none : Option Nat)).getD place none = none := by
          rw [List.getD_eq_getElem?_getD, List.getElem?_replicate]
          split <;> rfl
        simp only [Option.bind_some, empty, Option.isSome_none, Bool.false_eq_true, if_false]
    have unready : toSequencer.countP (WhaleToSequencer.isReady descriptor.seq rank) = 0 := by
      rw [List.countP_eq_zero]
      intro message member
      cases message with
      | request => exact Bool.false_ne_true
      | ready named from_ count =>
        have below := ok.known named from_ count member
        simp only [WhaleToSequencer.isReady, decide_eq_true_eq, not_and]
        omega
    have ungathered : (toMember rank).countP (WhaleToMember.isGather descriptor.seq) = 0 := by
      rw [List.countP_eq_zero]
      intro message member
      cases message with
      | gather named =>
        have below := older rank named member
        simp only [WhaleToMember.isGather, decide_eq_true_eq]
        omega
      | commit => exact Bool.false_ne_true
      | cancel => exact Bool.false_ne_true
    rw [unreplied, unready, List.countP_append, ungathered, mailFor_broadcast distinct]
    split
    · simp [WhaleToMember.isGather]
    · rfl

/-- A gather handled leaves a reply in its place. -/
theorem hear (ok : Owing sequencer toSequencer toMember) {rank count : Nat}
    {message : WhaleToMember} {rest : List WhaleToMember}
    (head : toMember rank = message :: rest)
    (older : ∀ named, .gather named ∈ toMember rank → named.seq < sequencer.nextSeq) :
    Owing sequencer (toSequencer ++ (message.reply rank count).toList)
      (Function.update toMember rank rest) := by
  refine ⟨?_, ok.sized, ?_⟩
  · intro named from_ launched member
    rcases List.mem_append.mp member with old | new
    · exact ok.known named from_ launched old
    · cases message with
      | gather descriptor =>
        cases List.mem_singleton.mp new
        exact older descriptor (by rw [head]; exact List.mem_cons_self ..)
      | commit => cases new
      | cancel => cases new
  · intro gathering open_ from_
    have owed := ok.owed gathering open_ from_
    rw [List.countP_append]
    by_cases same : from_ = rank
    · subst same
      rw [Function.update_self]
      rw [head, List.countP_cons] at owed
      cases message with
      | gather descriptor =>
        have moved : (if WhaleToMember.isGather gathering.descriptor.seq (.gather descriptor) =
          true then 1 else 0) =
            ((WhaleToMember.gather descriptor).reply from_ count).toList.countP
              (WhaleToSequencer.isReady gathering.descriptor.seq from_) := by
          simp [WhaleToMember.isGather, WhaleToMember.reply, WhaleToSequencer.isReady, List.countP_cons]
        omega
      | commit => exact owed
      | cancel => exact owed
    · rw [Function.update_of_ne same]
      have silent : (message.reply rank count).toList.countP
          (WhaleToSequencer.isReady gathering.descriptor.seq from_) = 0 := by
        rw [List.countP_eq_zero]
        intro reply member
        cases message with
        | gather descriptor =>
          cases List.mem_singleton.mp member
          simp only [WhaleToSequencer.isReady, decide_eq_true_eq]
          exact fun both => same both.2.symm
        | commit => cases member
        | cancel => cases member
      omega

end Owing

end PegaInfer.K3
