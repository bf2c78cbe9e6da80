import PegaInfer.K3.Gang

namespace PegaInfer.K3

theorem foldlM_max_some {entries : List (Option Nat)} {floor level : Nat}
    (folded : entries.foldlM (fun highest entry => entry.map (max highest)) floor = some level) :
    floor ≤ level ∧ ∀ entry ∈ entries, ∃ count, entry = some count ∧ count ≤ level := by
  induction entries generalizing floor with
  | nil =>
    cases folded
    exact ⟨Nat.le_refl _, by simp⟩
  | cons entry entries ih =>
    rw [List.foldlM_cons] at folded
    cases entry with
    | none => cases folded
    | some count =>
      obtain ⟨above, rest⟩ := ih folded
      refine ⟨by omega, ?_⟩
      intro other member
      rcases List.mem_cons.mp member with rfl | later
      · exact ⟨count, rfl, by omega⟩
      · exact rest other later

theorem foldlM_max_eq {entries : List (Option Nat)} {floor level : Nat} (below : floor ≤ level)
    (bounded : ∀ entry ∈ entries, ∃ count, entry = some count ∧ count ≤ level)
    (reached : floor = level ∨ some level ∈ entries) :
    entries.foldlM (fun highest entry => entry.map (max highest)) floor = some level := by
  induction entries generalizing floor with
  | nil =>
    rcases reached with rfl | member
    · rfl
    · cases member
  | cons entry entries ih =>
    obtain ⟨count, rfl, small⟩ := bounded entry List.mem_cons_self
    rw [List.foldlM_cons]
    refine @ih (max floor count) (by omega) (fun other member =>
      bounded other (List.mem_cons_of_mem _ member)) ?_
    rcases reached with rfl | member
    · exact .inl (by omega)
    · rcases List.mem_cons.mp member with same | later
      · cases same
        exact .inl (by omega)
      · exact .inr later

/-- What the board shows of a partition for a job: the count it has entered the
prefill at, or the one it is pumping toward. -/
def GangMember.entry (member : GangMember) (id : Nat) : Option Nat :=
  match member.started.find? (·.id = id), member.phase with
  | some run, _ => some run.start
  | none, .pumping _ current => if current = id then some (member.count + 1) else none
  | none, _ => none

def GangMember.done (member : GangMember) : Nat := member.sampled.length

/-- A job as the partitions' states have it. -/
def Gang.shown (gang : Gang) (job : GangJob) : GangJob :=
  { job with
    entries := (List.range gang.size).map fun partition => (gang.member partition).entry job.id
    executed := (List.range gang.size).map fun partition => decide (job.id < (gang.member partition).done) }

/-- The board shows, in posting order, every job some partition still has to run. -/
structure BoardOk (gang : Gang) : Prop where
  nextId : gang.board.nextId = gang.posted.length
  posted : ∀ (id : Nat) (job : GangJob), gang.posted[id]? = some job → job.id = id
  poster : ∀ job ∈ gang.posted, job.poster < gang.size
  sorted : gang.board.jobs.Pairwise (·.id < ·.id)
  shown : ∀ job ∈ gang.board.jobs, ∃ asked ∈ gang.posted, job = gang.shown asked
  pending : ∀ asked ∈ gang.posted, (∃ partition < gang.size, (gang.member partition).done ≤ asked.id) →
    ∃ job ∈ gang.board.jobs, job.id = asked.id

/-- A call runs jobs up to its own, or up to some job on the board. -/
structure CallOk (posted : List GangJob) (partition : Nat) (call : GangCall) : Prop where
  horizon : call.horizon < posted.length
  own : ∀ own, call.own = some own → own = call.horizon ∧ ∀ job, posted[own]? = some job →
    job.poster = partition

/-- What a partition's place in the protocol promises. -/
def PhaseOk (posted : List GangJob) (partition done : Nat) : GangPhase → Prop
  | .away => True
  | .posted own => done ≤ own ∧ CallOk posted partition { own := some own, horizon := own, token := none }
  | .pumping call id | .computing call id => id = done ∧ id ≤ call.horizon ∧ CallOk posted partition call

def GangPhase.running : GangPhase → Nat
  | .computing .. => 1
  | _ => 0

/-- The run is of a posted job, with the rank and the slot that job gives the
partition. -/
def RunOk (size : Nat) (posted : List GangJob) (partition : Nat) (run : GangRun) : Prop :=
  ∃ job, posted[run.id]? = some job ∧ run.prompt = job.prompt ∧
    run.cpRank = cpRank size partition job.poster ∧
    run.slot = if job.poster = partition then job.slot else 0

/-- What `post_and_run` may return for a job: the token of that job's own prefill,
or the error of a failed prefill. -/
def AnswerOk (sampled : List (Nat × Except String (Option Token))) (own : Nat) : Except String Token → Prop
  | .ok token => (own, .ok (some token)) ∈ sampled
  | .error _ => ∃ id ≤ own, (∃ message, (id, .error message) ∈ sampled) ∨ (id, .ok none) ∈ sampled

structure MemberOk (size : Nat) (posted : List GangJob) (partition : Nat) (member : GangMember) : Prop where
  phase : PhaseOk posted partition member.done member.phase
  started : member.started.map (·.id) = List.range (member.done + member.phase.running)
  sampled : member.sampled.map Prod.fst = List.range member.done
  known : member.done ≤ posted.length
  runs : ∀ run ∈ member.started, RunOk size posted partition run
  answers : ∀ own answer, (own, answer) ∈ member.answers →
    (∃ job, posted[own]? = some job ∧ job.poster = partition) ∧ AnswerOk member.sampled own answer

/-- Once a partition has entered the prefill of a job, no other's entry for it is
missing or higher. -/
def Leveled (gang : Gang) : Prop :=
  ∀ one two, one < gang.size → two < gang.size → ∀ run ∈ (gang.member one).started,
    ∃ count, (gang.member two).entry run.id = some count ∧ count ≤ run.start

structure GangOk (gang : Gang) : Prop where
  board : BoardOk gang
  member : ∀ partition < gang.size, MemberOk gang.size gang.posted partition (gang.member partition)
  leveled : Leveled gang

theorem set_map_range {α : Type} {size position : Nat} {old new : Nat → α}
    (others : ∀ other ≠ position, old other = new other) :
    ((List.range size).map old).set position (new position) = (List.range size).map new := by
  apply List.ext_getElem
  · simp
  · intro index short _
    rw [List.getElem_set]
    split
    · next same => simp [same]
    · next differ => simpa using others index (Ne.symm differ)

theorem GangMember.entry_of_started {member : GangMember} {run : GangRun}
    (unique : (member.started.map (·.id)).Nodup)
    (ran : run ∈ member.started) : member.entry run.id = some run.start := by
  obtain ⟨found, search⟩ := Option.isSome_iff_exists.mp
    (List.find?_isSome.mpr ⟨run, ran, decide_eq_true rfl⟩ : (member.started.find? (·.id = run.id)).isSome)
  have same := List.inj_on_of_nodup_map unique (List.mem_of_find?_eq_some search) ran
    (by simpa using List.find?_some search)
  rw [GangMember.entry, search, same]

theorem GangMember.entry_of_fresh {member : GangMember} {id : Nat} (fresh : id ∉ member.started.map (·.id)) :
    member.entry id = match member.phase with
      | .pumping _ current => if current = id then some (member.count + 1) else none
      | _ => none := by
  have search : member.started.find? (·.id = id) = none := by
    rw [List.find?_eq_none]
    intro run ran same
    exact fresh (List.mem_map.mpr ⟨run, ran, of_decide_eq_true same⟩)
  rw [GangMember.entry, search]
  split <;> simp_all

/-- A partition that moves on without starting a prefill shows at other jobs what it
showed before. -/
theorem GangMember.entry_congr {member next : GangMember} {id : Nat} {runs : List GangRun}
    (started : next.started = member.started ++ runs)
    (other : ∀ run ∈ runs, run.id ≠ id) (was : ∀ call, member.phase ≠ .pumping call id)
    (is : ∀ call, next.phase ≠ .pumping call id) :
    next.entry id = member.entry id := by
  have nothing : runs.find? (·.id = id) = none := by
    rw [List.find?_eq_none]
    intro run ran same
    exact other run ran (of_decide_eq_true same)
  rw [GangMember.entry, GangMember.entry, started, List.find?_append, nothing, Option.or_none]
  cases member.started.find? (·.id = id) with
  | some run => rfl
  | none =>
    cases now : next.phase <;> cases before : member.phase <;> simp_all

theorem AnswerOk.grow {sampled : List (Nat × Except String (Option Token))} {own : Nat}
    {answer : Except String Token}
    (ok : AnswerOk sampled own answer) (last : Nat × Except String (Option Token)) :
    AnswerOk (sampled ++ [last]) own answer := by
  cases answer with
  | ok token => exact List.mem_append_left _ ok
  | error message =>
    obtain ⟨id, within, ⟨failure, member⟩ | member⟩ := ok
    · exact ⟨id, within, .inl ⟨failure, List.mem_append_left _ member⟩⟩
    · exact ⟨id, within, .inr (List.mem_append_left _ member)⟩

theorem CallOk.grow {posted : List GangJob} {partition : Nat} {call : GangCall}
    (ok : CallOk posted partition call) (job : GangJob) :
    CallOk (posted ++ [job]) partition call := by
  refine ⟨by rw [List.length_append]; exact Nat.lt_add_right _ ok.horizon, fun own mine =>
    ⟨(ok.own own mine).1, ?_⟩⟩
  intro found present
  have short : own < posted.length := (ok.own own mine).1 ▸ ok.horizon
  rw [List.getElem?_append_left short] at present
  exact (ok.own own mine).2 found present

theorem PhaseOk.grow {posted : List GangJob} {partition done : Nat} {phase : GangPhase}
    (ok : PhaseOk posted partition done phase)
    (job : GangJob) : PhaseOk (posted ++ [job]) partition done phase := by
  cases phase with
  | away => trivial
  | posted own => exact ⟨ok.1, ok.2.grow job⟩
  | pumping call id => exact ⟨ok.1, ok.2.1, ok.2.2.grow job⟩
  | computing call id => exact ⟨ok.1, ok.2.1, ok.2.2.grow job⟩

theorem MemberOk.grow {size : Nat} {posted : List GangJob} {partition : Nat} {member : GangMember}
    (ok : MemberOk size posted partition member) (job : GangJob) :
    MemberOk size (posted ++ [job]) partition member := by
  have kept : ∀ {id : Nat} {asked : GangJob}, posted[id]? = some asked →
      (posted ++ [job])[id]? = some asked := by
    intro id asked found
    rw [List.getElem?_append_left (List.getElem?_eq_some_iff.mp found).1]
    exact found
  refine ⟨ok.phase.grow job, ok.started, ok.sampled, ?_, ?_, ?_⟩
  · rw [List.length_append]
    exact Nat.le_add_right_of_le ok.known
  · intro run ran
    obtain ⟨asked, found, rest⟩ := ok.runs run ran
    exact ⟨asked, kept found, rest⟩
  · intro own answer given
    obtain ⟨⟨asked, found, poster⟩, rest⟩ := ok.answers own answer given
    exact ⟨⟨asked, kept found, poster⟩, rest⟩

section

variable {gang : Gang} {partition : Nat}

/-- A job on the board is rewritten as one partition moves. -/
theorem BoardOk.put (ok : BoardOk gang) {asked : GangJob} (known : asked ∈ gang.posted) {next : GangMember}
    (done : next.done = (gang.member partition).done)
    (others : ∀ id ≠ asked.id, next.entry id = (gang.member partition).entry id) {job : GangJob}
    (id : job.id = asked.id)
    (shows : job = (gang.setMember partition next).shown asked) :
    BoardOk ({ gang with board := gang.board.put job }.setMember partition next) := by
  have counts : ∀ other, ((gang.setMember partition next).member other).done = (gang.member other).done := by
    intro other
    by_cases same : other = partition
    · subst same
      simp [Gang.setMember, done]
    · simp [Gang.setMember, same]
  refine ⟨ok.nextId, ok.posted, ok.poster, ?_, ?_, ?_⟩
  · show (gang.board.jobs.map _).Pairwise _
    rw [List.pairwise_map]
    refine ok.sorted.imp ?_
    intro one two less
    split <;> split <;> simp_all
  · intro shown member
    obtain ⟨before, present, same⟩ := List.mem_map.mp (show shown ∈ gang.board.jobs.map _ from member)
    split at same
    · exact ⟨asked, known, by rw [← same, shows]; rfl⟩
    · next differ =>
      obtain ⟨origin, asked_, rfl⟩ := ok.shown before present
      refine ⟨origin, asked_, ?_⟩
      rw [← same]
      have apart : origin.id ≠ asked.id := fun equal => differ (equal.trans id.symm)
      have entries : ∀ other, ((gang.setMember partition next).member other).entry origin.id =
          (gang.member other).entry origin.id := by
        intro other
        by_cases here : other = partition
        · subst here
          simp [Gang.setMember, others origin.id apart]
        · simp [Gang.setMember, here]
      show gang.shown origin = (gang.setMember partition next).shown origin
      simp only [Gang.shown, entries, counts]
      rfl
  · intro origin asked_ pending
    obtain ⟨other, inside, open_⟩ := pending
    obtain ⟨before, present, same⟩ := ok.pending origin asked_ ⟨other, inside, by rw [← counts]; exact open_⟩
    refine ⟨_, List.mem_map.mpr ⟨before, present, rfl⟩, ?_⟩
    split
    · next equal => rw [← same, equal]
    · exact same

theorem setMember_same (next : GangMember) : (gang.setMember partition next).member partition = next := by
  simp [Gang.setMember]

theorem setMember_other (next : GangMember) {other : Nat} (differ : other ≠ partition) :
    (gang.setMember partition next).member other = gang.member other := by
  simp [Gang.setMember, differ]

theorem Leveled.move (ok : Leveled gang) {next : GangMember} {id : Nat} {runs : List GangRun}
    (started : next.started = (gang.member partition).started ++ runs)
    (others : ∀ other ≠ id, next.entry other = (gang.member partition).entry other)
    (early : ∀ one < gang.size, ∀ run ∈ (gang.member one).started, run.id = id →
      ∃ count, next.entry id = some count ∧ count ≤ run.start)
    (late : ∀ run ∈ runs, run.id = id ∧ ∀ two < gang.size,
      ∃ count, ((gang.setMember partition next).member two).entry id = some count ∧ count ≤ run.start) :
    Leveled (gang.setMember partition next) := by
  intro one two first second run ran
  have old : ∀ owner < gang.size, run ∈ (gang.member owner).started →
      ∃ count, ((gang.setMember partition next).member two).entry run.id = some count ∧
        count ≤ run.start := by
    intro owner inside before
    by_cases here : two = partition
    · subst here
      rw [setMember_same]
      by_cases same : run.id = id
      · rw [same]
        exact early owner inside run before same
      · rw [others run.id same]
        exact ok owner two inside second run before
    · rw [setMember_other next here]
      exact ok owner two inside second run before
  by_cases mine : one = partition
  · subst mine
    rw [setMember_same, started] at ran
    rcases List.mem_append.mp ran with before | now
    · exact old one first before
    · obtain ⟨same, all⟩ := late run now
      rw [same]
      exact all two second
  · rw [setMember_other next mine] at ran
    exact old one first ran

/-- A job as a partition rewrites its own entry. -/
theorem shown_checkIn {asked : GangJob} {next : GangMember} {entry : Nat}
    (mine : next.entry asked.id = some entry)
    (done : next.done = (gang.member partition).done) :
    (gang.shown asked).checkIn partition entry = (gang.setMember partition next).shown asked := by
  have entries := @set_map_range _ gang.size partition (fun other => (gang.member other).entry asked.id)
    (fun other => ((gang.setMember partition next).member other).entry asked.id)
    (fun other differ => by rw [setMember_other next differ])
  simp only [setMember_same, mine] at entries
  have executed : ∀ other, ((gang.setMember partition next).member other).done =
      (gang.member other).done := by
    intro other
    by_cases here : other = partition
    · subst here
      rw [setMember_same, done]
    · rw [setMember_other next here]
  simp only [GangJob.checkIn, Gang.shown, entries, executed]
  rfl

/-- Everything a turn of the leveling loop starts from. `count` is the launch count
the partition is at now: the one it has already posted, if it has posted one. -/
structure AtLevel (gang : Gang) (partition count : Nat) (call : GangCall) (id : Nat) : Prop where
  inside : partition < gang.size
  idle : (gang.member partition).phase.running = 0
  turn : id = (gang.member partition).done
  within : id ≤ call.horizon
  call : CallOk gang.posted partition call
  pumping : ∀ call other, (gang.member partition).phase = .pumping call other → other = id
  entry : (gang.member partition).entry id = none ∨ (gang.member partition).entry id = some count

theorem AtLevel.fresh {count id : Nat} {call : GangCall} (here : AtLevel gang partition count call id)
    (ok : MemberOk gang.size gang.posted partition (gang.member partition)) :
    id ∉ (gang.member partition).started.map (·.id) := by
  rw [ok.started, here.idle, here.turn]
  simp

/-- Whoever has entered the prefill of the job did so at this count or a higher one. -/
theorem AtLevel.entered {count id : Nat} {call : GangCall} (here : AtLevel gang partition count call id)
    (leveled : Leveled gang) {other : Nat} (inside : other < gang.size) {run : GangRun}
    (ran : run ∈ (gang.member other).started) (same : run.id = id) : count ≤ run.start := by
  obtain ⟨posted, shown, below⟩ := leveled other partition inside here.inside run ran
  rw [same] at shown
  rcases here.entry with missing | present
  · rw [missing] at shown
    cases shown
  · rw [present] at shown
    cases shown
    exact below

theorem BoardOk.job (ok : BoardOk gang) {id : Nat} {job : GangJob} (found : gang.board.job id = some job) :
    ∃ asked ∈ gang.posted, asked.id = id ∧ gang.posted[id]? = some asked ∧ job = gang.shown asked := by
  have id_ : job.id = id := by simpa using List.find?_some found
  obtain ⟨asked, known, same⟩ := ok.shown job (List.mem_of_find?_eq_some found)
  have asked_ : asked.id = id := by rw [← id_, same]; rfl
  obtain ⟨position, present⟩ := List.mem_iff_getElem?.mp known
  have place := ok.posted position asked present
  exact ⟨asked, known, asked_, by rw [← asked_, place]; exact present, same⟩

theorem members_move (ok : ∀ other < gang.size,
    MemberOk gang.size gang.posted other (gang.member other)) {next : GangMember}
    (mine : MemberOk gang.size gang.posted partition next) :
    ∀ other < gang.size, MemberOk gang.size gang.posted other
      ((gang.setMember partition next).member other) := by
  intro other inside
  by_cases here : other = partition
  · subst here
    rw [setMember_same]
    exact mine
  · rw [setMember_other next here]
    exact ok other inside

/-- Everyone is level with this partition: it enters the prefill. -/
theorem GangOk.start (ok : GangOk gang) {count id : Nat} {call : GangCall}
    (here : AtLevel gang partition count call id)
    {asked : GangJob} (known : asked ∈ gang.posted) (same : asked.id = id) {run : GangRun}
    (runId : run.id = id) (start : run.start = count)
    (runOk : RunOk gang.size gang.posted partition run) {next : GangMember}
    (made : next = { gang.member partition with
      count, phase := .computing call id, started := (gang.member partition).started ++ [run] })
    (level : ((gang.shown asked).checkIn partition count).level = some count) :
    GangOk ({ gang with
      board := gang.board.put ((gang.shown asked).checkIn partition count) }.setMember partition next) := by
  have mine := ok.member partition here.inside
  have fresh := here.fresh mine
  have ids : next.started.map (·.id) = List.range ((gang.member partition).done + 1) := by
    rw [made, List.map_append, mine.started, here.idle, List.range_succ]
    simp [runId, here.turn]
  have entry : next.entry id = some count := by
    rw [← runId, ← start]
    refine GangMember.entry_of_started (by rw [ids]; exact List.nodup_range) ?_
    rw [made]
    simp
  have others : ∀ other ≠ id, next.entry other = (gang.member partition).entry other := by
    intro other differ
    refine @GangMember.entry_congr _ _ _ [run] (by rw [made]) ?_ ?_ ?_
    · intro ran member
      rw [List.mem_singleton.mp member, runId]
      exact Ne.symm differ
    · intro old pumping
      exact differ (here.pumping old other pumping)
    · intro old pumping
      rw [made] at pumping
      cases pumping
  have shows := shown_checkIn (by rw [same]; exact entry)
    (show next.done = (gang.member partition).done by rw [made]; rfl)
  refine ⟨ok.board.put known (by rw [made]; rfl) (by rw [same]; exact others) rfl shows, ?_, ?_⟩
  · refine members_move ok.member ?_
    subst made
    refine ⟨⟨here.turn, here.within, here.call⟩, ids, mine.sampled, mine.known, ?_, mine.answers⟩
    intro ran member
    rcases List.mem_append.mp member with old | new
    · exact mine.runs ran old
    · rw [List.mem_singleton.mp new]
      exact runOk
  · refine @Leveled.move _ _ ok.leveled _ id [run] (by rw [made]) others ?_ ?_
    · intro one inside ran member equal
      exact ⟨count, entry, here.entered ok.leveled inside member equal⟩
    · intro ran member
      rw [List.mem_singleton.mp member]
      refine ⟨runId, fun two inside => ?_⟩
      rw [shows] at level
      obtain ⟨_, bounded⟩ := foldlM_max_some level
      obtain ⟨reached, shown, below⟩ := bounded (((gang.setMember partition next).member two).entry asked.id)
        (List.mem_map.mpr ⟨two, List.mem_range.mpr inside, rfl⟩)
      exact ⟨reached, by rw [← same]; exact shown, by rw [start]; exact below⟩

/-- Somebody is missing or ahead: the partition pumps, and posts the count the pump
reaches. -/
theorem GangOk.pump (ok : GangOk gang) {count id : Nat} {call : GangCall}
    (here : AtLevel gang partition count call id)
    {asked : GangJob} (known : asked ∈ gang.posted) (same : asked.id = id) {next : GangMember}
    (made : next = { gang.member partition with count, phase := .pumping call id })
    (unlevel : ((gang.shown asked).checkIn partition count).level ≠ some count) :
    GangOk ({ gang with
      board := gang.board.put (((gang.shown asked).checkIn partition count).checkIn partition
        (count + 1)) }.setMember partition next) := by
  have mine := ok.member partition here.inside
  have fresh := here.fresh mine
  have entry : next.entry id = some (count + 1) := by
    rw [GangMember.entry_of_fresh (by rw [made]; exact fresh), made]
    exact if_pos rfl
  have others : ∀ other ≠ id, next.entry other = (gang.member partition).entry other := by
    intro other differ
    subst made
    refine @GangMember.entry_congr _ _ _ [] (List.append_nil _).symm (fun _ none_ => by cases none_) ?_ ?_
    · intro old pumping
      exact differ (here.pumping old other pumping)
    · intro old pumping
      cases pumping
      exact differ rfl
  have shows := shown_checkIn (by rw [same]; exact entry)
    (show next.done = (gang.member partition).done by rw [made]; rfl)
  have twice : ((gang.shown asked).checkIn partition count).checkIn partition (count + 1) =
      (gang.shown asked).checkIn partition (count + 1) := by
    simp [GangJob.checkIn]
  rw [twice]
  refine ⟨ok.board.put known (by rw [made]; rfl) (by rw [same]; exact others) rfl shows, ?_, ?_⟩
  · refine members_move ok.member ?_
    subst made
    refine ⟨⟨here.turn, here.within, here.call⟩, ?_, mine.sampled, mine.known, mine.runs, mine.answers⟩
    have ids := mine.started
    rw [here.idle] at ids
    exact ids
  · refine @Leveled.move _ _ ok.leveled _ id [] (by rw [made, List.append_nil]) others ?_
      (fun _ none_ => by cases none_)
    intro one inside run ran equal
    refine ⟨count + 1, entry, ?_⟩
    have below := here.entered ok.leveled inside ran equal
    rcases Nat.lt_or_eq_of_le below with less | level
    · exact less
    · refine absurd ?_ unlevel
      refine foldlM_max_eq (Nat.zero_le _) ?_ (.inr (List.mem_set (by simp [Gang.shown, here.inside]) _))
      intro shown member
      rcases List.mem_or_eq_of_mem_set member with old | new
      · obtain ⟨other, inside_, present⟩ := List.mem_map.mp old
        obtain ⟨posted, found, bounded⟩ := ok.leveled one other inside (List.mem_range.mp inside_) run ran
        rw [equal, ← same, present] at found
        exact ⟨posted, found, by rw [level]; exact bounded⟩
      · exact ⟨count, new, Nat.le_refl _⟩

theorem GangOk.levelUp (ok : GangOk gang) {count id : Nat} {call : GangCall}
    (here : AtLevel gang partition count call id)
    {next : Gang} (ran : gang.levelUp partition count call id = some next) :
    GangOk next ∧ next.size = gang.size := by
  rw [Gang.levelUp] at ran
  obtain ⟨job, found, ran⟩ := Option.bind_eq_some_iff.mp ran
  obtain ⟨asked, known, same, place, rfl⟩ := ok.board.job found
  simp only at ran
  split at ran
  · next level =>
    cases ran
    exact ⟨ok.start here known same rfl rfl ⟨asked, place, rfl, rfl, rfl⟩ rfl level, rfl⟩
  · next unlevel =>
    cases ran
    exact ⟨ok.pump here known same rfl unlevel, rfl⟩

/-- A partition moves in a way the board does not show. -/
theorem GangOk.quiet (ok : GangOk gang) (inside : partition < gang.size) {next : GangMember}
    (entry : ∀ id, next.entry id = (gang.member partition).entry id)
    (started : next.started = (gang.member partition).started)
    (done : next.done = (gang.member partition).done)
    (mine : MemberOk gang.size gang.posted partition next) : GangOk (gang.setMember partition next) := by
  have entries : ∀ other id, ((gang.setMember partition next).member other).entry id =
      (gang.member other).entry id := by
    intro other id
    by_cases here : other = partition
    · subst here
      rw [setMember_same, entry]
    · rw [setMember_other next here]
  have counts : ∀ other, ((gang.setMember partition next).member other).done = (gang.member other).done := by
    intro other
    by_cases here : other = partition
    · subst here
      rw [setMember_same, done]
    · rw [setMember_other next here]
  refine ⟨⟨ok.board.nextId, ok.board.posted, ok.board.poster, ok.board.sorted, ?_, ?_⟩,
    members_move ok.member mine, ?_⟩
  · intro job member
    obtain ⟨asked, known, same⟩ := ok.board.shown job member
    refine ⟨asked, known, ?_⟩
    rw [same]
    simp only [Gang.shown, entries, counts]
    rfl
  · intro asked known pending
    obtain ⟨other, inside, open_⟩ := pending
    exact ok.board.pending asked known ⟨other, inside, by rw [← counts]; exact open_⟩
  · refine @Leveled.move _ _ ok.leveled next 0 [] (by rw [started, List.append_nil])
      (fun other _ => entry other) ?_
      (fun _ none_ => by cases none_)
    intro one inside_ run ran same
    rw [← same, entry]
    exact ok.leveled one partition inside_ inside run ran

/-- Outside a prefill and outside the leveling loop. -/
def GangPhase.Between (phase : GangPhase) : Prop :=
  (∀ call id, phase ≠ .pumping call id) ∧ phase.running = 0

/-- A call is over. -/
theorem GangOk.leave (ok : GangOk gang) (inside : partition < gang.size)
    (between : (gang.member partition).phase.Between)
    {call : GangCall} (callOk : CallOk gang.posted partition call) {result : Except String (Option Token)}
    (answer : ∀ own, call.own = some own → AnswerOk (gang.member partition).sampled own (result.bind fun
      | some token => .ok token
      | none => .error "the owner's CP prefill must sample the boundary token")) :
    GangOk (gang.leave partition call result) := by
  have mine := ok.member partition inside
  refine ok.quiet inside ?_ rfl rfl ⟨trivial, ?_, mine.sampled, mine.known, mine.runs, ?_⟩
  · intro id
    refine @GangMember.entry_congr _ _ _ [] (List.append_nil _).symm (fun _ none_ => by cases none_) ?_ ?_
    · exact fun call => between.1 call id
    · intro call pumping
      cases pumping
  · have ids := mine.started
    rw [between.2] at ids
    exact ids
  · intro own given member
    rcases List.mem_append.mp member with old | new
    · exact mine.answers own given old
    · cases owner : call.own with
      | none =>
        rw [owner] at new
        cases new
      | some job =>
        rw [owner] at new
        cases List.mem_singleton.mp new
        obtain ⟨end_, poster⟩ := callOk.own _ owner
        have present := List.getElem?_eq_getElem (end_ ▸ callOk.horizon)
        exact ⟨⟨_, present, poster _ present⟩, answer _ owner⟩

/-- The first job left to a partition is the one after the last it has run. -/
theorem BoardOk.pick (ok : BoardOk gang) (inside : partition < gang.size) {horizon : Nat}
    (known : horizon < gang.posted.length) :
    (∃ job, gang.board.jobs.find? (fun job =>
      decide (job.id ≤ horizon) && !job.executed.getD partition true) = some job ∧
      job.id = (gang.member partition).done ∧ job.id ≤ horizon) ∨
    gang.board.jobs.find? (fun job => decide (job.id ≤ horizon) && !job.executed.getD partition true) = none ∧
      horizon < (gang.member partition).done := by
  have open_ : ∀ job ∈ gang.board.jobs, job.executed.getD partition true =
      decide (job.id < (gang.member partition).done) := by
    intro job member
    obtain ⟨asked, _, rfl⟩ := ok.shown job member
    simp only [Gang.shown, List.getD_eq_getElem?_getD, List.getElem?_map, List.getElem?_range inside]
    rfl
  have turn : (gang.member partition).done ≤ horizon →
      ∃ job ∈ gang.board.jobs, job.id = (gang.member partition).done := by
    intro within
    have present := List.getElem?_eq_getElem (Nat.lt_of_le_of_lt within known)
    have id := ok.posted _ _ present
    obtain ⟨job, member, same⟩ :=
      ok.pending _ (List.mem_of_getElem? present) ⟨partition, inside, Nat.le_of_eq id.symm⟩
    exact ⟨job, member, same.trans id⟩
  cases search : gang.board.jobs.find? (fun job =>
    decide (job.id ≤ horizon) && !job.executed.getD partition true) with
  | none =>
    refine .inr ⟨rfl, ?_⟩
    by_contra within
    obtain ⟨job, member, same⟩ := turn (by omega)
    have refused := List.find?_eq_none.mp search job member
    rw [open_ job member, same] at refused
    simp at refused
    omega
  | some job =>
    refine .inl ⟨job, rfl, ?_⟩
    obtain ⟨chosen, early, late, split_, before⟩ := List.find?_eq_some_iff_append.mp search
    have member : job ∈ gang.board.jobs := List.mem_of_find?_eq_some search
    rw [open_ job member] at chosen
    simp at chosen
    obtain ⟨first, present, same⟩ := turn (by omega)
    refine ⟨?_, chosen.1⟩
    have refused := before first
    have sorted := ok.sorted
    have where_ := present
    rw [split_] at where_ sorted
    rcases List.mem_append.mp where_ with sooner | later
    · have bad := refused sooner
      rw [open_ first present, same] at bad
      simp at bad
      omega
    · rcases List.mem_cons.mp later with equal | after
      · rw [← equal, same]
      · have less := (List.pairwise_cons.mp (List.pairwise_append.mp sorted).2.1).1 first after
        omega

theorem GangOk.runJobs (ok : GangOk gang) (inside : partition < gang.size)
    (between : (gang.member partition).phase.Between)
    {call : GangCall} (callOk : CallOk gang.posted partition call)
    (left : (gang.member partition).done ≤ call.horizon ∨ ∀ own, call.own = some own →
      ∃ token, call.token = some token ∧ (own, .ok (some token)) ∈ (gang.member partition).sampled)
    {next : Gang} (ran : gang.runJobs partition call = some next) : GangOk next ∧ next.size = gang.size := by
  have mine := ok.member partition inside
  rw [Gang.runJobs] at ran
  rcases ok.board.pick inside callOk.horizon with ⟨job, search, turn, within⟩ | ⟨search, over_⟩
  · rw [search] at ran
    refine ok.levelUp ⟨inside, between.2, turn, within, callOk,
      fun _ _ pumping => absurd pumping (between.1 _ _), .inl ?_⟩ ran
    have fresh : job.id ∉ (gang.member partition).started.map (·.id) := by
      rw [mine.started, between.2, turn]
      simp
    rw [GangMember.entry_of_fresh fresh]
    split
    · next pumping => exact absurd pumping (between.1 _ _)
    · rfl
  · rw [search] at ran
    cases ran
    refine ⟨ok.leave inside between callOk ?_, rfl⟩
    intro own mine_
    rcases left with more | token
    · omega
    · obtain ⟨token, given, sampled⟩ := token own mine_
      rw [given]
      exact sampled

/-- A partition's mark on the job it has just run; the last mark takes the job off
the board. -/
theorem BoardOk.mark (ok : BoardOk gang) {asked : GangJob} (known : asked ∈ gang.posted)
    (turn : asked.id = (gang.member partition).done) {next : GangMember}
    (entry : ∀ id, next.entry id = (gang.member partition).entry id)
    (done : next.done = (gang.member partition).done + 1) :
    BoardOk ({ gang with board := { gang.board.put
        { gang.shown asked with executed := (gang.shown asked).executed.set partition true } with
      jobs := (gang.board.put
        { gang.shown asked with executed := (gang.shown asked).executed.set partition true }).jobs.filter
        fun job => !job.executed.all (·) } }.setMember partition next) := by
  have entries : ∀ other id, ((gang.setMember partition next).member other).entry id =
      (gang.member other).entry id := by
    intro other id
    by_cases here : other = partition
    · subst here
      rw [setMember_same, entry]
    · rw [setMember_other next here]
  have marked : ({ gang.shown asked with
    executed := (gang.shown asked).executed.set partition true } : GangJob) =
      (gang.setMember partition next).shown asked := by
    have flags := @set_map_range _ gang.size partition
      (fun other => decide (asked.id < (gang.member other).done))
      (fun other => decide (asked.id < ((gang.setMember partition next).member other).done))
      (fun other differ => by rw [setMember_other next differ])
    rw [setMember_same, done,
      decide_eq_true (show asked.id < (gang.member partition).done + 1 by omega)] at flags
    simp only [Gang.shown, entries, flags]
    rfl
  have unmarked : ∀ other : GangJob, other.id ≠ asked.id →
      (gang.setMember partition next).shown other = gang.shown other := by
    intro other differ
    have flags : ∀ member, decide (other.id < ((gang.setMember partition next).member member).done) =
        decide (other.id < (gang.member member).done) := by
      intro member
      by_cases here : member = partition
      · subst here
        rw [setMember_same, done, decide_eq_decide]
        omega
      · rw [setMember_other next here]
    simp only [Gang.shown, entries, flags]
    rfl
  have after : ∀ job ∈ (gang.board.put ((gang.setMember partition next).shown asked)).jobs,
      ∃ origin ∈ gang.posted, job = (gang.setMember partition next).shown origin := by
    intro job member
    obtain ⟨before, present, same⟩ := List.mem_map.mp member
    split at same
    · exact ⟨asked, known, same.symm⟩
    · next differ =>
      obtain ⟨origin, asked_, rfl⟩ := ok.shown before present
      exact ⟨origin, asked_, by rw [← same, unmarked origin differ]⟩
  rw [marked]
  refine ⟨ok.nextId, ok.posted, ok.poster, ?_, ?_, ?_⟩
  · refine List.Pairwise.filter _ ?_
    show (gang.board.jobs.map _).Pairwise _
    rw [List.pairwise_map]
    refine ok.sorted.imp ?_
    intro one two less
    split <;> split <;> simp_all
  · intro job member
    exact after job (List.mem_filter.mp member).1
  · intro origin asked_ pending
    obtain ⟨other, inside, open_⟩ := pending
    have still : (gang.member other).done ≤ origin.id := by
      by_cases here : other = partition
      · subst here
        rw [setMember_same, done] at open_
        omega
      · rw [setMember_other next here] at open_
        exact open_
    obtain ⟨before, present, same⟩ := ok.pending origin asked_ ⟨other, inside, still⟩
    have put : ∃ job ∈ (gang.board.put ((gang.setMember partition next).shown asked)).jobs,
        job.id = origin.id := by
      refine ⟨_, List.mem_map.mpr ⟨before, present, rfl⟩, ?_⟩
      split
      · next equal => rw [← same, equal]
      · exact same
    obtain ⟨job, member, id⟩ := put
    refine ⟨job, List.mem_filter.mpr ⟨member, ?_⟩, id⟩
    obtain ⟨source, _, rfl⟩ := after job member
    rw [Bool.not_eq_true', List.all_eq_false]
    refine ⟨false, List.mem_map.mpr ⟨other, List.mem_range.mpr inside, ?_⟩, by decide⟩
    rw [decide_eq_false_iff_not]
    have here : source.id = origin.id := id
    have open_ : ((gang.setMember partition next).member other).done ≤ origin.id := open_
    omega

/-- A prefill is over. -/
theorem GangOk.executed (ok : GangOk gang) (inside : partition < gang.size) {call : GangCall} {id : Nat}
    (computing : (gang.member partition).phase = .computing call id) {job : GangJob}
    (found : gang.board.job id = some job)
    (advance : Nat) (sampled : Except String (Option Token)) :
    GangOk (gang.executed partition advance job sampled) := by
  have mine := ok.member partition inside
  obtain ⟨asked, known, same, place, rfl⟩ := ok.board.job found
  have phase := mine.phase
  rw [computing] at phase
  obtain ⟨turn, within, callOk⟩ := phase
  generalize made : ({ gang.member partition with
      count := (gang.member partition).count + advance
      phase := .away
      sampled := (gang.member partition).sampled ++ [(asked.id, sampled)] } : GangMember) = next
  have done : next.done = (gang.member partition).done + 1 := by
    rw [← made]
    simp [GangMember.done]
  have entry : ∀ other, next.entry other = (gang.member partition).entry other := by
    intro other
    refine @GangMember.entry_congr _ _ _ [] (by rw [← made, List.append_nil])
      (fun _ none_ => by cases none_) ?_ ?_
    · intro call pumping
      rw [computing] at pumping
      cases pumping
    · intro call pumping
      rw [← made] at pumping
      cases pumping
  have mine_ : MemberOk gang.size gang.posted partition next := by
    subst made
    refine ⟨trivial, ?_, ?_, ?_, mine.runs, ?_⟩
    · have ids := mine.started
      rw [computing] at ids
      rw [done]
      exact ids
    · rw [done, List.map_append, mine.sampled, List.range_succ, same, turn]
      rfl
    · rw [done, ← turn]
      exact (List.getElem?_eq_some_iff.mp place).1
    · intro own answer member
      obtain ⟨job, rest⟩ := mine.answers own answer member
      exact ⟨job, rest.grow _⟩
  subst made
  refine ⟨ok.board.mark known (same.trans turn) entry done, members_move ok.member mine_, ?_⟩
  refine @Leveled.move _ _ ok.leveled _ 0 [] (List.append_nil _).symm
    (fun other _ => entry other) ?_ (fun _ none_ => by cases none_)
  intro one inside_ run ran equal
  obtain ⟨count, shown, below⟩ := ok.leveled one partition inside_ inside run ran
  exact ⟨count, by rw [← equal]; exact (entry run.id).trans shown, below⟩

theorem GangOk.computed (ok : GangOk gang) (inside : partition < gang.size) {call : GangCall} {id : Nat}
    (computing : (gang.member partition).phase = .computing call id) {advance : Nat}
    {sampled : Except String (Option Token)}
    {next : Gang} (ran : gang.computed partition advance call id sampled = some next) :
    GangOk next ∧ next.size = gang.size := by
  rw [Gang.computed] at ran
  obtain ⟨job, found, ran⟩ := Option.bind_eq_some_iff.mp ran
  have after := ok.executed inside computing found advance sampled
  obtain ⟨turn, within, callOk⟩ :
      PhaseOk gang.posted partition (gang.member partition).done (.computing call id) := by
    rw [← computing]
    exact (ok.member partition inside).phase
  obtain ⟨asked, known, same, place, rfl⟩ := ok.board.job found
  have now : (gang.executed partition advance (gang.shown asked) sampled).member partition =
      { gang.member partition with
        count := (gang.member partition).count + advance
        phase := .away
        sampled := (gang.member partition).sampled ++ [(asked.id, sampled)] } := setMember_same _
  have between : ((gang.executed partition advance (gang.shown asked) sampled).member
      partition).phase.Between := by
    rw [now]
    exact ⟨fun _ _ => by simp, rfl⟩
  have last : (id, sampled) ∈
      ((gang.executed partition advance (gang.shown asked) sampled).member partition).sampled := by
    rw [now, ← same]
    exact List.mem_append_right _ List.mem_cons_self
  have done : ((gang.executed partition advance (gang.shown asked) sampled).member partition).done =
      id + 1 := by
    rw [now, turn]
    simp [GangMember.done]
  cases sampled with
  | error message =>
    cases ran
    refine ⟨after.leave inside between callOk ?_, rfl⟩
    intro own mine
    exact ⟨id, by rw [(callOk.own own mine).1]; exact within, .inl ⟨message, last⟩⟩
  | ok token =>
    simp only at ran
    split at ran
    · next poster =>
      cases token with
      | none =>
        cases ran
        refine ⟨after.leave inside between callOk ?_, rfl⟩
        intro own mine
        exact ⟨id, by rw [(callOk.own own mine).1]; exact within, .inr last⟩
      | some word =>
        have same_ : CallOk gang.posted partition { call with token := some word } :=
          ⟨callOk.horizon, callOk.own⟩
        refine after.runJobs inside between same_ ?_ ran
        rcases Nat.lt_or_eq_of_le within with more | end_
        · exact .inl (by rw [done]; exact more)
        · refine .inr fun own mine => ⟨word, rfl, ?_⟩
          rw [(callOk.own own mine).1, ← end_]
          exact last
    · next poster =>
      refine after.runJobs inside between ⟨callOk.horizon, callOk.own⟩ ?_ ran
      rcases Nat.lt_or_eq_of_le within with more | end_
      · exact .inl (by rw [done]; exact more)
      · refine .inr fun own mine => absurd ((callOk.own own mine).2 asked ?_) poster
        rw [(callOk.own own mine).1, ← end_]
        exact place

/-- Nobody shows anything for a job that is not posted yet. -/
theorem MemberOk.unknown {size : Nat} {posted : List GangJob} {member : GangMember}
    (ok : MemberOk size posted partition member) :
    member.entry posted.length = none ∧ decide (posted.length < member.done) = false := by
  refine ⟨?_, decide_eq_false (Nat.not_lt.mpr ok.known)⟩
  have phase := ok.phase
  have fresh : posted.length ∉ member.started.map (·.id) := by
    rw [ok.started, List.mem_range]
    have known := ok.known
    cases now : member.phase with
    | computing call id =>
      rw [now] at phase
      obtain ⟨turn, within, callOk⟩ := phase
      have horizon := callOk.horizon
      simp only [GangPhase.running]
      omega
    | _ =>
      simp only [GangPhase.running]
      omega
  rw [GangMember.entry_of_fresh fresh]
  split
  · next call id now =>
    rw [now] at phase
    obtain ⟨turn, within, callOk⟩ := phase
    have horizon := callOk.horizon
    exact if_neg (by omega)
  · rfl

theorem map_range_const {α : Type} {size : Nat} {f : Nat → α} {value : α}
    (same : ∀ index < size, f index = value) :
    List.replicate size value = (List.range size).map f := by
  refine (List.eq_replicate_iff.mpr ⟨by simp, ?_⟩).symm
  intro item member
  obtain ⟨index, inside, rfl⟩ := List.mem_map.mp member
  exact same index (List.mem_range.mp inside)

/-- A job is posted. -/
theorem GangOk.post (ok : GangOk gang) (inside : partition < gang.size)
    (away : (gang.member partition).phase = .away) (slot : Nat)
    (prompt : List Token) : GangOk (gang.post partition slot prompt) := by
  have mine := ok.member partition inside
  have entry : ∀ id,
    ({ gang.member partition with phase := .posted gang.board.nextId } : GangMember).entry id =
      (gang.member partition).entry id := by
    intro id
    refine @GangMember.entry_congr _ _ _ [] (List.append_nil _).symm (fun _ none_ => by cases none_) ?_ ?_
    · intro call pumping
      rw [away] at pumping
      cases pumping
    · intro call pumping
      cases pumping
  have entries : ∀ other id, ((gang.post partition slot prompt).member other).entry id =
      (gang.member other).entry id := by
    intro other id
    by_cases here : other = partition
    · subst here
      simp only [Gang.post, Function.update_self]
      exact entry id
    · simp only [Gang.post, Function.update_of_ne here]
  have counts : ∀ other, ((gang.post partition slot prompt).member other).done =
      (gang.member other).done := by
    intro other
    by_cases here : other = partition
    · subst here
      simp only [Gang.post, Function.update_self]
      rfl
    · simp only [Gang.post, Function.update_of_ne here]
  have early : ∀ asked ∈ gang.posted, asked.id < gang.posted.length := by
    intro asked known
    obtain ⟨position, present⟩ := List.mem_iff_getElem?.mp known
    rw [ok.board.posted position asked present]
    exact (List.getElem?_eq_some_iff.mp present).1
  have shown : ∀ asked, (gang.post partition slot prompt).shown asked = gang.shown asked := by
    intro asked
    simp only [Gang.shown, entries, counts]
    rfl
  have newest : GangJob.new gang.size gang.board.nextId partition slot prompt =
      gang.shown (.new gang.size gang.board.nextId partition slot prompt) := by
    rw [Gang.shown, ← map_range_const, ← map_range_const]
    · rfl
    · intro other inside_
      simp only [GangJob.new, ok.board.nextId]
      exact (ok.member other inside_).unknown.2
    · intro other inside_
      simp only [GangJob.new, ok.board.nextId]
      exact (ok.member other inside_).unknown.1
  have last : (gang.posted ++
    [GangJob.new gang.size gang.board.nextId partition slot prompt])[gang.posted.length]? =
      some (GangJob.new gang.size gang.board.nextId partition slot prompt) := by
    simp
  refine ⟨⟨?_, ?_, ?_, ?_, ?_, ?_⟩, ?_, ?_⟩
  · simp [Gang.post, ok.board.nextId]
  · intro id job present
    change (gang.posted ++ [GangJob.new gang.size gang.board.nextId partition slot prompt])[id]? =
      some job at present
    rcases Nat.lt_trichotomy id gang.posted.length with less | rfl | more
    · rw [List.getElem?_append_left less] at present
      exact ok.board.posted id job present
    · rw [last] at present
      cases present
      exact ok.board.nextId
    · rw [List.getElem?_eq_none (by simp; omega)] at present
      cases present
  · intro job member
    rcases List.mem_append.mp member with old | new
    · exact ok.board.poster job old
    · rw [List.mem_singleton.mp new]
      exact inside
  · refine List.pairwise_append.mpr ⟨ok.board.sorted, List.pairwise_singleton _ _, ?_⟩
    intro old member new here
    obtain ⟨asked, known, rfl⟩ := ok.board.shown old member
    rw [List.mem_singleton.mp here]
    have less := early asked known
    simp only [Gang.shown, GangJob.new, ok.board.nextId]
    exact less
  · intro job member
    rcases List.mem_append.mp member with old | new
    · obtain ⟨asked, known, same⟩ := ok.board.shown job old
      exact ⟨asked, List.mem_append_left _ known, by rw [same, shown]⟩
    · rw [List.mem_singleton.mp new]
      exact ⟨_, List.mem_append_right _ List.mem_cons_self, by rw [shown]; exact newest⟩
  · intro asked known pending
    obtain ⟨other, inside_, open_⟩ := pending
    rw [counts] at open_
    rcases List.mem_append.mp known with old | new
    · obtain ⟨job, member, same⟩ := ok.board.pending asked old ⟨other, inside_, open_⟩
      exact ⟨job, List.mem_append_left _ member, same⟩
    · rw [List.mem_singleton.mp new]
      exact ⟨_, List.mem_append_right _ List.mem_cons_self, rfl⟩
  · intro other inside_
    by_cases here : other = partition
    · subst here
      have grown := mine.grow (GangJob.new gang.size gang.board.nextId other slot prompt)
      simp only [Gang.post, Function.update_self]
      refine ⟨⟨?_, ?_, ?_⟩, ?_, grown.sampled, grown.known, grown.runs, grown.answers⟩
      · rw [ok.board.nextId]
        exact mine.known
      · simp [ok.board.nextId]
      · intro own same
        cases same
        refine ⟨rfl, fun job present => ?_⟩
        rw [ok.board.nextId] at last present
        rw [last] at present
        cases present
        rfl
      · have ids := mine.started
        rw [away] at ids
        exact ids
    · simp only [Gang.post, Function.update_of_ne here]
      exact (ok.member other inside_).grow _
  · refine @Leveled.move _ _ ok.leveled _ 0 [] (List.append_nil _).symm
      (fun other _ => entry other) ?_ (fun _ none_ => by cases none_)
    intro one inside_ run ran equal
    obtain ⟨count, shown, below⟩ := ok.leveled one partition inside_ inside run ran
    exact ⟨count, by rw [← equal]; exact (entry run.id).trans shown, below⟩

theorem GangOk.new (size : Nat) (counts : Nat → Nat) : GangOk (.new size counts) := by
  refine ⟨⟨rfl, ?_, ?_, .nil, ?_, ?_⟩, ?_, ?_⟩
  · intro id job present
    cases present
  · intro job member
    cases member
  · intro job member
    cases member
  · intro asked known
    cases known
  · intro partition _
    refine ⟨trivial, rfl, rfl, Nat.le_refl _, ?_, ?_⟩
    · intro run ran
      cases ran
    · intro own answer given
      cases given
  · intro one two _ _ run ran
    cases ran

theorem GangOk.step (ok : GangOk gang) {next : Gang} (move : GangStep gang next) :
    GangOk next ∧ next.size = gang.size := by
  cases move with
  | @step partition count inside away =>
    have mine := ok.member partition inside
    refine ⟨ok.quiet inside ?_ rfl rfl ⟨mine.phase, mine.started, mine.sampled, mine.known,
      mine.runs, mine.answers⟩, rfl⟩
    intro id
    refine @GangMember.entry_congr _ _ _ [] (List.append_nil _).symm (fun _ none_ => by cases none_) ?_ ?_
    · intro call pumping
      rw [away] at pumping
      cases pumping
    · intro call pumping
      simp only [away] at pumping
      cases pumping
  | @post partition slot prompt inside away => exact ⟨ok.post inside away slot prompt, rfl⟩
  | @serve _ partition inside away ran =>
    rw [Gang.serve] at ran
    split at ran
    · cases ran
      exact ⟨ok, rfl⟩
    · next job last =>
      obtain ⟨asked, known, rfl⟩ := ok.board.shown job (List.mem_of_getLast? last)
      obtain ⟨position, present⟩ := List.mem_iff_getElem?.mp known
      refine ok.runJobs inside ?_ ⟨?_, fun own none_ => by cases none_⟩
        (.inr fun own none_ => by cases none_) ran
      · rw [away]
        exact ⟨fun _ _ => by simp, rfl⟩
      · show asked.id < gang.posted.length
        rw [ok.board.posted position asked present]
        exact (List.getElem?_eq_some_iff.mp present).1
  | @run _ partition own inside posted ran =>
    have phase := (ok.member partition inside).phase
    rw [posted] at phase
    obtain ⟨ahead, callOk⟩ := phase
    refine ok.runJobs inside ?_ callOk (.inl ahead) ran
    rw [posted]
    exact ⟨fun _ _ => by simp, rfl⟩
  | @pumped _ partition id call inside pumping ran =>
    have mine := ok.member partition inside
    have phase := mine.phase
    rw [pumping] at phase
    obtain ⟨turn, within, callOk⟩ := phase
    refine ok.levelUp ⟨inside, by rw [pumping]; rfl, turn, within, callOk, ?_, .inr ?_⟩ ran
    · intro other current same
      rw [pumping] at same
      cases same
      rfl
    · have fresh : id ∉ (gang.member partition).started.map (·.id) := by
        rw [mine.started, pumping, turn]
        simp [GangPhase.running]
      rw [GangMember.entry_of_fresh fresh, pumping]
      exact if_pos rfl
  | @computed _ partition id call advance sampled inside computing ran =>
    exact ok.computed inside computing ran

end

theorem GangReach.ok {size : Nat} {gang : Gang} (reach : GangReach size gang) :
    GangOk gang ∧ gang.size = size := by
  induction reach with
  | start counts => exact ⟨.new size counts, rfl⟩
  | next _ move ih =>
    obtain ⟨ok, same⟩ := ih.1.step move
    exact ⟨ok, same.trans ih.2⟩

theorem cpRank_poster (size poster : Nat) : cpRank size poster poster = size - 1 := if_pos rfl

theorem cpRank_cases (size partition poster : Nat) :
    partition = poster ∧ cpRank size partition poster = size - 1 ∨ partition < poster ∧
      cpRank size partition poster = partition ∨
      poster < partition ∧ cpRank size partition poster = partition - 1 := by
  rw [cpRank]
  rcases Nat.lt_trichotomy partition poster with less | same | more
  · refine .inr (.inl ⟨less, ?_⟩)
    rw [if_neg (by omega), decide_eq_false (by omega)]
    rfl
  · exact .inl ⟨same, if_pos same⟩
  · refine .inr (.inr ⟨more, ?_⟩)
    rw [if_neg (by omega), decide_eq_true more]
    rfl

/-- A gang's ranks are dealt out once each. -/
theorem cpRank_perm {size poster : Nat} (inside : poster < size) :
    ((List.range size).map fun partition => cpRank size partition poster).Perm (List.range size) := by
  have nodup : ((List.range size).map fun partition => cpRank size partition poster).Nodup := by
    refine List.Nodup.map_on ?_ List.nodup_range
    intro one first two second same
    rw [List.mem_range] at first second
    have here := cpRank_cases size one poster
    have there := cpRank_cases size two poster
    omega
  refine (List.subperm_of_subset nodup ?_).perm_of_length_le (by simp)
  intro rank member
  obtain ⟨partition, inside_, rfl⟩ := List.mem_map.mp member
  rw [List.mem_range] at inside_ ⊢
  have here := cpRank_cases size partition poster
  omega

/-- The gang acts as one on every job: the prefills of a job start from one launch
count, every partition runs the jobs in posting order and as the rank the job gives
it, and a poster's answer is the token of its own job. A job leaves the board when
everyone has run it, and not before. -/
structure GangAligned (gang : Gang) : Prop where
  level : ∀ one two, one < gang.size → two < gang.size →
    ∀ run ∈ (gang.member one).started, ∀ other ∈ (gang.member two).started,
    run.id = other.id → run.start = other.start
  order : ∀ partition < gang.size, (gang.member partition).started.map (·.id) =
    List.range (gang.member partition).started.length
  runs : ∀ partition < gang.size, ∀ run ∈ (gang.member partition).started,
    RunOk gang.size gang.posted partition run
  ranks : ∀ job ∈ gang.posted, job.poster < gang.size ∧
    cpRank gang.size job.poster job.poster = gang.size - 1 ∧
    ((List.range gang.size).map fun partition => cpRank gang.size partition job.poster).Perm
      (List.range gang.size)
  answers : ∀ partition < gang.size, ∀ own answer, (own, answer) ∈ (gang.member partition).answers →
    (∃ job, gang.posted[own]? = some job ∧ job.poster = partition) ∧
      AnswerOk (gang.member partition).sampled own answer
  pending : ∀ id job, gang.posted[id]? = some job → (gang.board.job id).isSome ∨
    ∀ partition < gang.size, ∃ sampled, (id, sampled) ∈ (gang.member partition).sampled
  found : ∀ partition < gang.size, ∀ call id, (gang.member partition).phase = .pumping call id ∨
    (gang.member partition).phase = .computing call id → (gang.board.job id).isSome

theorem BoardOk.job_isSome {gang : Gang} (ok : BoardOk gang) {id partition : Nat} {job : GangJob}
    (present : gang.posted[id]? = some job)
    (inside : partition < gang.size) (open_ : (gang.member partition).done ≤ id) :
    (gang.board.job id).isSome := by
  have same := ok.posted id job present
  obtain ⟨shown, member, equal⟩ :=
    ok.pending job (List.mem_of_getElem? present) ⟨partition, inside, by rw [same]; exact open_⟩
  exact List.find?_isSome.mpr ⟨shown, member, decide_eq_true (equal.trans same)⟩

/-- Whatever the interleaving of the partitions, their postings and their own steps. -/
theorem GangReach.aligned {size : Nat} {gang : Gang} (reach : GangReach size gang) : GangAligned gang := by
  obtain ⟨ok, -⟩ := reach.ok
  have nodup : ∀ partition < gang.size, ((gang.member partition).started.map (·.id)).Nodup := by
    intro partition inside
    rw [(ok.member partition inside).started]
    exact List.nodup_range
  refine ⟨?_, ?_, fun partition inside => (ok.member partition inside).runs, ?_,
    fun partition inside => (ok.member partition inside).answers, ?_, ?_⟩
  · intro one two first second run ran other ran_ same
    obtain ⟨high, shown, below⟩ := ok.leveled one two first second run ran
    obtain ⟨low, shown_, above⟩ := ok.leveled two one second first other ran_
    rw [same, GangMember.entry_of_started (nodup two second) ran_] at shown
    rw [← same, GangMember.entry_of_started (nodup one first) ran] at shown_
    cases shown
    cases shown_
    omega
  · intro partition inside
    have ids := (ok.member partition inside).started
    have length := congrArg List.length ids
    rw [List.length_map, List.length_range] at length
    rw [ids, length]
  · intro job known
    exact ⟨ok.board.poster job known, cpRank_poster _ _, cpRank_perm (ok.board.poster job known)⟩
  · intro id job present
    by_cases open_ : ∃ partition < gang.size, (gang.member partition).done ≤ id
    · obtain ⟨partition, inside, behind⟩ := open_
      exact .inl (ok.board.job_isSome present inside behind)
    · refine .inr fun partition inside => ?_
      have ahead : id < (gang.member partition).done := by
        by_contra behind
        exact open_ ⟨partition, inside, by omega⟩
      have member : id ∈ (gang.member partition).sampled.map Prod.fst := by
        rw [(ok.member partition inside).sampled]
        exact List.mem_range.mpr ahead
      obtain ⟨⟨_, sampled⟩, ran, rfl⟩ := List.mem_map.mp member
      exact ⟨sampled, ran⟩
  · intro partition inside call id busy
    obtain ⟨turn, within, callOk⟩ : id = (gang.member partition).done ∧ id ≤ call.horizon ∧
        CallOk gang.posted partition call := by
      have phase := (ok.member partition inside).phase
      rcases busy with pumping | computing
      · rw [pumping] at phase
        exact phase
      · rw [computing] at phase
        exact phase
    have present := List.getElem?_eq_getElem (Nat.lt_of_le_of_lt within callOk.horizon)
    exact ok.board.job_isSome present inside (Nat.le_of_eq turn.symm)

/-- Partition 1 is two launches ahead when partition 0 posts a prompt: both start it
at 5, and partition 0 gets its token. -/
theorem GangReach.aligned_two_apart : ∃ gang, GangReach 2 gang ∧ (gang.member 0).answers = [(0, .ok 7)] ∧
    (gang.member 0).started = [⟨0, 5, 1, [3, 4], 1⟩] ∧
    (gang.member 1).started = [⟨0, 5, 0, [3, 4], 0⟩] ∧ GangAligned gang := by
  have s0 : GangReach 2 _ := .start fun partition => 3 + 2 * partition
  have s1 := s0.next (@GangStep.post _ 0 1 [3, 4] (by decide) rfl)
  have s2 := s1.next (@GangStep.run _ _ 0 0 (by decide) rfl rfl)
  have s3 := s2.next (@GangStep.serve _ _ 1 (by decide) rfl rfl)
  have s4 := s3.next (@GangStep.pumped _ _ 0 0 _ (by decide) rfl rfl)
  have s5 := s4.next (@GangStep.pumped _ _ 0 0 _ (by decide) rfl rfl)
  have s6 := s5.next (@GangStep.computed _ _ 1 0 _ 2 (.ok none) (by decide) rfl rfl)
  have s7 := s6.next (@GangStep.computed _ _ 0 0 _ 2 (.ok (some 7)) (by decide) rfl rfl)
  exact ⟨_, s7, rfl, rfl, rfl, s7.aligned⟩

end PegaInfer.K3
