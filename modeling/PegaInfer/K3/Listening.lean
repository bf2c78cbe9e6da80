import PegaInfer.Lib.LabelledRun
import PegaInfer.K3.Sequenced

namespace PegaInfer.K3

/-- What a rank has been told: the whale it was gathered for and that is still
open, and the supersteps committed to it. -/
structure Talk where
  armed : Option WhaleDescriptor
  commits : List CommittedWhale

/-- The next message a rank may be told. A cancel with nothing open is the refusal
of a post. -/
inductive Talk.Hears (rank : Nat) : Talk → WhaleToMember → Talk → Prop
  | gather {descriptor : WhaleDescriptor} {commits : List CommittedWhale} :
      descriptor.verify = .ok () → rank ∈ descriptor.gang →
      Hears rank { armed := none, commits } (.gather descriptor) { armed := some descriptor, commits }
  | commit {descriptor : WhaleDescriptor} {commits : List CommittedWhale} {launch cpRank : Nat} :
      descriptor.cpRankOf rank = some cpRank → (∀ whale ∈ commits, whale.launch < launch) →
      Hears rank { armed := some descriptor, commits } (.commit descriptor.seq launch)
        { armed := none, commits := commits ++ [{ descriptor, launch, cpRank }] }
  | cancel {descriptor : WhaleDescriptor} {commits : List CommittedWhale} :
      Hears rank { armed := some descriptor, commits } (.cancel descriptor.seq) { armed := none, commits }
  | refusal {commits : List CommittedWhale} (seq : Nat) :
      Hears rank { armed := none, commits } (.cancel seq) { armed := none, commits }

def Talk.silent : Talk :=
  { armed := none, commits := [] }

/-- The whale a rank has in its channel or its state: the gathering one, if the
rank is in its gang. -/
def WhaleSequencer.openFor (sequencer : WhaleSequencer) (rank : Nat) : Option WhaleDescriptor :=
  (sequencer.gathering.map (·.descriptor)).filter fun descriptor => rank ∈ descriptor.gang

/-- One rank against everything sent to it: `heard` has been handled, `inbox` is
under way. -/
structure Listening (rank : Nat) (sequencer : WhaleSequencer) (mail inbox : List WhaleToMember)
    (member : WhaleMember)
    (count : Nat) (entered : List CommittedWhale) (heard : List WhaleToMember)
    (talk final : Talk) : Prop where
  stream : heard ++ inbox = mail
  told : LabelledRun (Talk.Hears rank) .silent heard talk
  untold : LabelledRun (Talk.Hears rank) talk inbox final
  armed_final : final.armed = sequencer.openFor rank
  floor : ∀ whale ∈ final.commits, ∃ floor, sequencer.committedFloor = some floor ∧ whale.launch ≤ floor
  same_rank : member.rank = rank
  armed : member.armed = talk.armed.toList
  commits : entered ++ member.committed = talk.commits
  ahead : ∀ whale ∈ member.committed, count ≤ whale.launch

theorem WhaleDescriptor.cpRankOf_of_mem {descriptor : WhaleDescriptor} {rank : Nat}
    (inGang : rank ∈ descriptor.gang) :
    ∃ cpRank, descriptor.cpRankOf rank = some cpRank := by
  rw [← Option.isSome_iff_exists, WhaleDescriptor.cpRankOf, List.findIdx?_isSome, List.any_eq_true]
  exact ⟨rank, inGang, by simp⟩

theorem WhaleDescriptor.mem_gang_of_cpRankOf {descriptor : WhaleDescriptor} {rank cpRank : Nat}
    (found : descriptor.cpRankOf rank = some cpRank) : rank ∈ descriptor.gang := by
  obtain ⟨inside, here, _⟩ := List.findIdx?_eq_some_iff_getElem.mp found
  simp only [decide_eq_true_eq] at here
  exact here ▸ List.getElem_mem inside

/-- The reply a member gives: its count, to a gather. -/
def WhaleToMember.reply (rank count : Nat) : WhaleToMember → Option WhaleToSequencer
  | .gather descriptor => some (.ready descriptor.seq rank count)
  | .commit .. => none
  | .cancel _ => none

/-- A member that is told what it may be told accepts it, if a commit is in time. -/
theorem Talk.Hears.onMessage {rank count : Nat} {talk after : Talk} {message : WhaleToMember}
    {member : WhaleMember}
    (hears : Talk.Hears rank talk message after) (same : member.rank = rank)
    (armed : member.armed = talk.armed.toList)
    (known : ∀ whale ∈ member.committed, whale ∈ talk.commits)
    (inTime : ∀ seq launch, message = .commit seq launch → count < launch) :
    ∃ new, member.onMessage message count =
        .ok ({ rank, armed := after.armed.toList, committed := member.committed ++ new },
          message.reply rank count) ∧
      after.commits = talk.commits ++ new ∧ ∀ whale ∈ new, count ≤ whale.launch := by
  obtain ⟨memberRank, memberArmed, committed⟩ := member
  simp only at same armed known
  subst same armed
  cases hears with
  | gather valid inGang =>
    obtain ⟨cpRank, found⟩ := WhaleDescriptor.cpRankOf_of_mem inGang
    refine ⟨[], ?_, (List.append_nil _).symm, fun whale member => (List.not_mem_nil member).elim⟩
    simp [WhaleMember.onMessage, WhaleToMember.reply, valid, found, bind, Except.bind, pure, Except.pure]
  | @commit descriptor commits launch cpRank found increasing =>
    have late := inTime descriptor.seq launch rfl
    refine ⟨[{ descriptor, launch, cpRank }], ?_, rfl, ?_⟩
    · have last : committed.getLast?.filter (fun last => decide (launch ≤ last.launch)) = none := by
        cases atEnd : committed.getLast? with
        | none => rfl
        | some last =>
          have below := increasing last (known last (List.mem_of_getLast? atEnd))
          simp only [Option.filter_some, decide_eq_true_eq, ite_eq_right_iff]
          omega
      simp [WhaleMember.onMessage, WhaleToMember.reply, WhaleMember.onCommit, last, found,
        Nat.not_le.mpr late, bind, Except.bind, pure, Except.pure]
    · intro whale member
      rw [List.mem_singleton.mp member]
      exact late.le
  | cancel =>
    refine ⟨[], ?_, (List.append_nil _).symm, fun whale member => (List.not_mem_nil member).elim⟩
    simp [WhaleMember.onMessage, WhaleToMember.reply]
  | refusal =>
    refine ⟨[], ?_, (List.append_nil _).symm, fun whale member => (List.not_mem_nil member).elim⟩
    simp [WhaleMember.onMessage, WhaleToMember.reply]

/-- Where the parts of a talk come from. -/
structure Talk.Told (rank : Nat) (heard : List WhaleToMember) (talk : Talk) : Prop where
  armed : ∀ descriptor, talk.armed = some descriptor → .gather descriptor ∈ heard
  commits : ∀ whale ∈ talk.commits, .gather whale.descriptor ∈ heard ∧
    .commit whale.descriptor.seq whale.launch ∈ heard ∧ whale.descriptor.cpRankOf rank = some whale.cpRank
  increasing : talk.commits.Pairwise fun early late => early.launch < late.launch

theorem Talk.Told.hears {rank : Nat} {heard : List WhaleToMember} {talk after : Talk}
    {message : WhaleToMember}
    (told : Talk.Told rank heard talk) (hears : Talk.Hears rank talk message after) :
    Talk.Told rank (heard ++ [message]) after := by
  have older : ∀ whale ∈ talk.commits, .gather whale.descriptor ∈ heard ++ [message] ∧
      .commit whale.descriptor.seq whale.launch ∈ heard ++ [message] ∧
        whale.descriptor.cpRankOf rank = some whale.cpRank := by
    intro whale member
    obtain ⟨gathered, committed, found⟩ := told.commits whale member
    exact ⟨List.mem_append_left _ gathered, List.mem_append_left _ committed, found⟩
  cases hears with
  | gather valid inGang =>
    refine ⟨?_, older, told.increasing⟩
    intro descriptor same
    cases same
    exact List.mem_append_right _ (List.mem_singleton_self _)
  | @commit descriptor commits launch cpRank found increasing =>
    refine ⟨fun _ none_ => (by cases none_), ?_, ?_⟩
    · intro whale member
      rcases List.mem_append.mp member with old | new
      · exact older whale old
      · rw [List.mem_singleton.mp new]
        exact ⟨List.mem_append_left _ (told.armed descriptor rfl),
          List.mem_append_right _ (List.mem_singleton_self _), found⟩
    · refine List.pairwise_append.mpr ⟨told.increasing, List.pairwise_singleton _ _, ?_⟩
      intro early old late new
      rw [List.mem_singleton.mp new]
      exact increasing early old
  | cancel => exact ⟨fun _ none_ => (by cases none_), older, told.increasing⟩
  | refusal => exact ⟨fun _ none_ => (by cases none_), older, told.increasing⟩

theorem Talk.Told.of_run {rank : Nat} {heard : List WhaleToMember} {talk : Talk}
    (run : LabelledRun (Talk.Hears rank) .silent heard talk) : Talk.Told rank heard talk := by
  refine run.invariant (Talk.Told rank) ⟨fun _ none_ => (by cases none_),
    fun _ member => (by cases member), .nil⟩ ?_
  intro before after read label told move
  exact told.hears move

namespace Listening

variable {rank : Nat} {sequencer : WhaleSequencer} {mail inbox heard : List WhaleToMember}
  {member : WhaleMember} {count : Nat}
  {entered : List CommittedWhale} {talk final : Talk}

theorem new (rank world chunkTokens count : Nat) :
    Listening rank (.new world chunkTokens) [] [] (.new rank) count [] [] .silent .silent where
  stream := rfl
  told := .nil _
  untold := .nil _
  armed_final := rfl
  floor := by intro whale member; cases member
  same_rank := rfl
  armed := rfl
  commits := rfl
  ahead := by intro whale member; cases member

/-- The sequencer tells the rank more. -/
theorem speak (ok : Listening rank sequencer mail inbox member count entered heard talk final)
    {next : WhaleSequencer}
    {new : List WhaleToMember} {last : Talk} (more : LabelledRun (Talk.Hears rank) final new last)
    (armed_final : last.armed = next.openFor rank)
    (floor : ∀ whale ∈ last.commits, ∃ floor, next.committedFloor = some floor ∧ whale.launch ≤ floor) :
    Listening rank next (mail ++ new) (inbox ++ new) member count entered heard talk last where
  stream := by rw [← List.append_assoc, ok.stream]
  told := ok.told
  untold := ok.untold.append more
  armed_final := armed_final
  floor := floor
  same_rank := ok.same_rank
  armed := ok.armed
  commits := ok.commits
  ahead := ok.ahead

/-- The sequencer moves on without a word to the rank. -/
theorem unspoken (ok : Listening rank sequencer mail inbox member count entered heard talk final)
    {next : WhaleSequencer}
    (armed_final : next.openFor rank = sequencer.openFor rank)
    (floors : ∀ floor, sequencer.committedFloor = some floor →
      ∃ higher, next.committedFloor = some higher ∧ floor ≤ higher) :
    Listening rank next mail inbox member count entered heard talk final := by
  refine { ok with armed_final := ok.armed_final.trans armed_final.symm, floor := ?_ }
  intro whale inside
  obtain ⟨floor, now, le⟩ := ok.floor whale inside
  obtain ⟨higher, later, above⟩ := floors floor now
  exact ⟨higher, later, le.trans above⟩

theorem known (ok : Listening rank sequencer mail inbox member count entered heard talk final) :
    ∀ whale ∈ member.committed, whale ∈ talk.commits := by
  intro whale inside
  rw [← ok.commits]
  exact List.mem_append_right _ inside

/-- The head of the channel is accepted, if a commit is in time. -/
theorem hear {message : WhaleToMember} {rest : List WhaleToMember}
    (ok : Listening rank sequencer mail (message :: rest) member count entered heard talk final)
    (inTime : ∀ seq launch, message = .commit seq launch → count < launch) :
    ∃ next after, member.onMessage message count = .ok (next, message.reply rank count) ∧
      Listening rank sequencer mail rest next count entered (heard ++ [message]) after final := by
  have run := ok.untold
  cases run with
  | @cons _ after _ _ _ hears untold =>
    obtain ⟨new, call, commits, ahead⟩ := hears.onMessage ok.same_rank ok.armed ok.known inTime
    refine ⟨_, after, call, ?_⟩
    refine ⟨?_, ok.told.append (.single hears), untold, ok.armed_final, ok.floor, rfl, rfl, ?_, ?_⟩
    · rw [List.append_assoc, List.singleton_append, ok.stream]
    · rw [commits, ← ok.commits, List.append_assoc]
    · intro whale inside
      rcases List.mem_append.mp inside with old | fresh
      · exact ok.ahead whale old
      · exact ahead whale fresh

/-- A member's pending supersteps lie at increasing launches. -/
theorem increasing (ok : Listening rank sequencer mail inbox member count entered heard talk final) :
    (entered ++ member.committed).Pairwise fun early late => early.launch < late.launch := by
  rw [ok.commits]
  exact (Talk.Told.of_run ok.told).increasing

theorem atLaunch (ok : Listening rank sequencer mail inbox member count entered heard talk final) :
    ∃ result, member.atLaunch count = .ok result := by
  simp only [WhaleMember.atLaunch]
  split
  · exact ⟨_, rfl⟩
  · next front rest pending =>
    have ahead := ok.ahead front (by rw [pending]; exact List.mem_cons_self ..)
    rw [if_neg (by omega)]
    split <;> exact ⟨_, rfl⟩

theorem enter (ok : Listening rank sequencer mail inbox member count entered heard talk final)
    {next : WhaleMember}
    {whale : CommittedWhale} (duty : member.atLaunch count = .ok (next, .enter whale)) :
    whale.launch = count ∧
      Listening rank sequencer mail inbox next (count + 1) (entered ++ [whale]) heard talk final := by
  simp only [WhaleMember.atLaunch] at duty
  split at duty
  · cases duty
  · next front rest pending =>
    split at duty
    · cases duty
    · split at duty
      · next now =>
        cases duty
        have sorted := (List.pairwise_append.mp ok.increasing).2.1
        rw [pending, List.pairwise_cons] at sorted
        refine ⟨now, { ok with commits := ?_, ahead := ?_ }⟩
        · rw [← ok.commits, pending, List.append_assoc, List.singleton_append]
        · intro later inside
          have := sorted.1 later inside
          omega
      · cases duty

theorem launch (ok : Listening rank sequencer mail inbox member count entered heard talk final)
    {next : WhaleMember}
    {launches : Nat} (duty : member.atLaunch count = .ok (next, .free))
    (single : next.isQuiet = false → launches = 1) :
    next = member ∧ Listening rank sequencer mail inbox next (count + launches) entered heard talk final := by
  simp only [WhaleMember.atLaunch] at duty
  split at duty
  · next pending =>
    cases duty
    refine ⟨rfl, { ok with ahead := ?_ }⟩
    intro whale inside
    rw [pending] at inside
    cases inside
  · next front rest pending =>
    have sorted := (List.pairwise_append.mp ok.increasing).2.1
    rw [pending, List.pairwise_cons] at sorted
    split at duty
    · cases duty
    · split at duty
      · cases duty
      · next early later =>
        cases duty
        have one := single (by simp only [WhaleMember.isQuiet, pending, List.isEmpty_cons, Bool.and_false])
        refine ⟨rfl, { ok with ahead := ?_ }⟩
        intro whale inside
        rw [pending] at inside
        rcases List.mem_cons.mp inside with rfl | inside
        · omega
        · have := sorted.1 whale inside
          omega

end Listening

end PegaInfer.K3
