import PegaInfer.Basic

namespace PegaInfer.K3

/-- One posted context-parallel prefill. -/
structure GangJob where
  id : Nat
  prompt : List Token
  poster : Nat
  slot : Nat
  entries : List (Option Nat)
  executed : List Bool
  deriving DecidableEq

/-- Pending jobs, in posting order. -/
structure GangBoard where
  nextId : Nat
  jobs : List GangJob
  deriving DecidableEq

/-- `job_mut`, whose `expect` is the `none`. -/
def GangBoard.job (board : GangBoard) (id : Nat) : Option GangJob :=
  board.jobs.find? (·.id = id)

/-- The job is written back. -/
def GangBoard.put (board : GangBoard) (job : GangJob) : GangBoard :=
  { board with jobs := board.jobs.map fun other => if other.id = job.id then job else other }

/-- The CP rank a partition takes in a gang owned by `poster`. -/
def cpRank (size partition poster : Nat) : Nat :=
  if partition = poster then size - 1 else partition - (decide (poster < partition)).toNat

/-- The launch count everyone has to reach, once everyone has checked in. -/
def GangJob.level (job : GangJob) : Option Nat :=
  job.entries.foldlM (fun highest entry => entry.map (max highest)) 0

/-- A partition posts the count it is at, or the one its pump will reach. -/
def GangJob.checkIn (job : GangJob) (partition count : Nat) : GangJob :=
  { job with entries := job.entries.set partition (some count) }

/-- A job nobody has reached. -/
def GangJob.new (size id poster slot : Nat) (prompt : List Token) : GangJob :=
  { id, prompt, poster, slot, entries := List.replicate size none, executed := List.replicate size false }

/-- A call of `run_jobs`. -/
structure GangCall where
  own : Option Nat
  horizon : Nat
  token : Option Token
  deriving DecidableEq

/-- Where a partition is while it does not hold the board's lock: outside the gang,
between posting a job and running it, in `pump_step`, or in `prefill_cp`. -/
inductive GangPhase
  | away
  | posted (own : Nat)
  | pumping (call : GangCall) (id : Nat)
  | computing (call : GangCall) (id : Nat)
  deriving DecidableEq

/-- A call of `prefill_cp`, and the launch count it starts from. -/
structure GangRun where
  id : Nat
  start : Nat
  slot : Nat
  prompt : List Token
  cpRank : Nat
  deriving DecidableEq

/-- A partition. `started`, `sampled` and `answers` are histories: its calls of
`prefill_cp`, what those that are over gave, and what its `post_and_run` calls
returned for the job they posted. -/
structure GangMember where
  count : Nat
  phase : GangPhase
  started : List GangRun
  sampled : List (Nat × Except String (Option Token))
  answers : List (Nat × Except String Token)

/-- The partitions that share a `K3CpGang`. `posted` is the history of its jobs. -/
structure Gang where
  size : Nat
  board : GangBoard
  member : Nat → GangMember
  posted : List GangJob

namespace Gang

def new (size : Nat) (counts : Nat → Nat) : Gang :=
  { size
    board := { nextId := 0, jobs := [] }
    member := fun partition =>
      { count := counts partition, phase := .away, started := [], sampled := [], answers := [] }
    posted := [] }

def setMember (gang : Gang) (partition : Nat) (member : GangMember) : Gang :=
  { gang with member := Function.update gang.member partition member }

/-- The first part of `post_and_run`. -/
def post (gang : Gang) (poster slot : Nat) (prompt : List Token) : Gang :=
  let id := gang.board.nextId
  let job := GangJob.new gang.size id poster slot prompt
  { gang with
    board := { nextId := id + 1, jobs := gang.board.jobs ++ [job] }
    posted := gang.posted ++ [job]
    member := Function.update gang.member poster { gang.member poster with phase := .posted id } }

/-- `run_jobs` returns, and `post_and_run` with it. -/
def leave (gang : Gang) (partition : Nat) (call : GangCall) (result : Except String (Option Token)) : Gang :=
  let member := gang.member partition
  let answers := match call.own with
    | none => []
    | some own => [(own, result.bind fun
        | some token => .ok token
        | none => .error "the owner's CP prefill must sample the boundary token")]
  gang.setMember partition { member with phase := .away, answers := member.answers ++ answers }

/-- One turn of the leveling loop, at launch count `count`, up to where the lock is
dropped for a pump or for the prefill. -/
def levelUp (gang : Gang) (partition count : Nat) (call : GangCall) (id : Nat) : Option Gang := do
  let member := { gang.member partition with count }
  let job ← gang.board.job id
  let here := job.checkIn partition count
  if here.level = some count then
    let run : GangRun :=
      { id
        start := count
        slot := if here.poster = partition then here.slot else 0
        prompt := here.prompt
        cpRank := cpRank gang.size partition here.poster }
    return { gang with board := gang.board.put here }.setMember partition
      { member with phase := .computing call id, started := member.started ++ [run] }
  else
    return { gang with board := gang.board.put (here.checkIn partition (count + 1)) }.setMember partition
      { member with phase := .pumping call id }

/-- The head of the loop of `run_jobs`: the first job left to this partition. -/
def runJobs (gang : Gang) (partition : Nat) (call : GangCall) : Option Gang :=
  match gang.board.jobs.find? fun job =>
    decide (job.id ≤ call.horizon) && !job.executed.getD partition true with
  | none => some (gang.leave partition call (.ok call.token))
  | some job => gang.levelUp partition (gang.member partition).count call job.id

/-- `serve`, up to where the lock is first dropped. -/
def serve (gang : Gang) (partition : Nat) : Option Gang :=
  match gang.board.jobs.getLast? with
  | none => some gang
  | some job => gang.runJobs partition { own := none, horizon := job.id, token := none }

/-- What the end of a prefill leaves of the board and of the partition. -/
def executed (gang : Gang) (partition advance : Nat) (job : GangJob)
    (sampled : Except String (Option Token)) : Gang :=
  let member := gang.member partition
  let board := gang.board.put { job with executed := job.executed.set partition true }
  { gang with
    board := { board with jobs := board.jobs.filter fun job => !job.executed.all (·) } }.setMember partition
    { member with
      count := member.count + advance
      phase := .away
      sampled := member.sampled ++ [(job.id, sampled)] }

/-- `prefill_cp` is over: the job is marked, and the loop of `run_jobs` goes on
unless the prefill failed. -/
def computed (gang : Gang) (partition advance : Nat) (call : GangCall) (id : Nat)
    (sampled : Except String (Option Token)) : Option Gang := do
  let job ← gang.board.job id
  let next := gang.executed partition advance job sampled
  match sampled with
  | .error message => return next.leave partition call (.error message)
  | .ok token =>
    if job.poster = partition then
      match token with
      | none => return next.leave partition call (.error "the owner's CP prefill returned no token")
      | some token => next.runJobs partition { call with token := some token }
    else next.runJobs partition call

end Gang

/-- What a partition does from one release of the lock to the next. Outside the
gang it may step as it likes; a pump is one launch. -/
inductive GangStep : Gang → Gang → Prop
  | step {gang : Gang} {partition : Nat} (count : Nat) :
      partition < gang.size → (gang.member partition).phase = .away →
      GangStep gang (gang.setMember partition { gang.member partition with count })
  | post {gang : Gang} {partition : Nat} (slot : Nat) (prompt : List Token) : partition < gang.size →
      (gang.member partition).phase = .away → GangStep gang (gang.post partition slot prompt)
  | serve {gang next : Gang} {partition : Nat} :
      partition < gang.size → (gang.member partition).phase = .away →
      gang.serve partition = some next → GangStep gang next
  | run {gang next : Gang} {partition own : Nat} :
      partition < gang.size → (gang.member partition).phase = .posted own →
      gang.runJobs partition { own := some own, horizon := own, token := none } = some next →
        GangStep gang next
  | pumped {gang next : Gang} {partition id : Nat} {call : GangCall} : partition < gang.size →
      (gang.member partition).phase = .pumping call id →
      gang.levelUp partition ((gang.member partition).count + 1) call id = some next → GangStep gang next
  | computed {gang next : Gang} {partition id : Nat} {call : GangCall} (advance : Nat)
      (sampled : Except String (Option Token)) : partition < gang.size →
      (gang.member partition).phase = .computing call id →
      gang.computed partition advance call id sampled = some next → GangStep gang next

inductive GangReach (size : Nat) : Gang → Prop
  | start (counts : Nat → Nat) : GangReach size (.new size counts)
  | next {before after : Gang} : GangReach size before → GangStep before after → GangReach size after

end PegaInfer.K3
