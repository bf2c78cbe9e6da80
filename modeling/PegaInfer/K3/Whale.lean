import PegaInfer.Basic

namespace PegaInfer.K3

def K3_WHALE_COMMIT_SLACK : Nat := 4

def K3_WHALE_SEGMENT_FLOOR : Nat := 2048

structure WhaleDescriptor where
  seq : Nat
  request : Nat
  poster : Nat
  gang : List Nat
  prompt : List Token
  promptHash : UInt64
  deriving DecidableEq

/-- This rank's CP rank in the gang, if it is a member. -/
def WhaleDescriptor.cpRankOf (descriptor : WhaleDescriptor) (rank : Nat) : Option Nat :=
  descriptor.gang.findIdx? (· = rank)

/-- `u32::to_le_bytes`. -/
def toLeBytes (token : Token) : List UInt64 :=
  [token &&& 0xff, (token >>> 8) &&& 0xff, (token >>> 16) &&& 0xff, (token >>> 24) &&& 0xff].map (·.toUInt64)

/-- FNV-1a over the prompt, the tokens fed as little-endian bytes. -/
def k3WhalePromptHash (prompt : List Token) : UInt64 :=
  (prompt.flatMap toLeBytes).foldl (fun hash byte => (hash ^^^ byte) * 0x100000001b3) 0xcbf29ce484222325

def WhaleDescriptor.verify (descriptor : WhaleDescriptor) : Except String Unit :=
  if k3WhalePromptHash descriptor.prompt ≠ descriptor.promptHash then
    .error s!"whale {descriptor.seq} prompt hash mismatch — the descriptor was corrupted in transit"
  else if descriptor.gang.getLast? ≠ some descriptor.poster then
    .error s!"whale {descriptor.seq} gang does not end at its poster"
  else .ok ()

/-- What a rank asks of the sequencer: a whale prefill of `prompt`. -/
structure WhaleRequest where
  request : Nat
  poster : Nat
  prompt : List Token
  deriving DecidableEq

inductive WhaleToSequencer
  | request (request : WhaleRequest)
  | ready (seq : Nat) (rank : Nat) (count : Nat)
  deriving DecidableEq

inductive WhaleToMember
  | gather (descriptor : WhaleDescriptor)
  | commit (seq : Nat) (launch : Nat)
  | cancel (seq : Nat)
  deriving DecidableEq

structure WhaleOutbound where
  to_ : Nat
  message : WhaleToMember
  deriving DecidableEq

def broadcast (gang : List Nat) (message : WhaleToMember) : List WhaleOutbound :=
  gang.map fun rank => { to_ := rank, message }

/-- `k3_whale_gang`: a contiguous block of ranks, tray-aligned when it is wide
enough, with the poster moved to the end. -/
def k3WhaleGang (poster width world : Nat) : List Nat :=
  let tray := 4
  let start := if tray ≤ width then min (poster / tray * tray) (world - width) else min poster (world - width)
  (List.range' start width).filter (· ≠ poster) ++ [poster]

section

variable (segments : (total width chunkTokens : Nat) → List (Nat × Nat))

/-- `k3_whale_admits` over `segments`, which is `k3_whale_segments`, the leveled split. -/
def k3WhaleAdmits (total width chunkTokens : Nat) : Bool :=
  if width < 2 ∨ total < width * K3_WHALE_SEGMENT_FLOOR then false
  else
    let split := segments total width chunkTokens
    split.getLast?.any (fun (start, len) => start + len = total) &&
      split.all fun (_, len) => K3_WHALE_SEGMENT_FLOOR ≤ len ∧ len ≤ chunkTokens

/-- The first loop of `k3_whale_width`, at most `fuel` doublings. -/
def doubleWithin (world : Nat) : (fuel width : Nat) → Nat
  | 0, width => width
  | fuel + 1, width => if width * 2 ≤ world then doubleWithin world fuel (width * 2) else width

/-- Its second loop, at most `fuel` halvings. -/
def halveUntilAdmitted (total chunkTokens : Nat) : (fuel width : Nat) → Option Nat
  | 0, _ => none
  | fuel + 1, width =>
    if 2 ≤ width then
      if k3WhaleAdmits segments total width chunkTokens then some width
      else halveUntilAdmitted total chunkTokens fuel (width / 2)
    else none

/-- `k3_whale_width`. The width is at most `world` when the first loop ends (or
still 1), so either loop makes fewer turns than its fuel. -/
def k3WhaleWidth (total world chunkTokens : Nat) : Option Nat :=
  halveUntilAdmitted segments total chunkTokens (world + 1) (doubleWithin world world 1)

/-- One whale mid-gather, with a reply per gang member in gang order. -/
structure Gathering where
  descriptor : WhaleDescriptor
  replies : List (Option Nat)
  deriving DecidableEq

structure WhaleSequencer where
  world : Nat
  chunkTokens : Nat
  nextSeq : Nat
  committedFloor : Option Nat
  gathering : Option Gathering
  queue : List WhaleRequest
  deriving DecidableEq

def WhaleSequencer.new (world chunkTokens : Nat) : WhaleSequencer :=
  { world, chunkTokens, nextSeq := 0, committedFloor := none, gathering := none, queue := [] }

/-- The descriptor `start_next_gather` makes of a queued request. -/
def WhaleRequest.descriptor (request : WhaleRequest) (seq : Nat) (width world : Nat) : WhaleDescriptor :=
  { seq
    request := request.request
    poster := request.poster
    gang := k3WhaleGang request.poster width world
    prompt := request.prompt
    promptHash := k3WhalePromptHash request.prompt }

/-- The loop of `start_next_gather` over the queue: refusals go on to the next
request, the first request with a width stops it. -/
def WhaleSequencer.gatherFrom (sequencer : WhaleSequencer) :
    (queue : List WhaleRequest) → WhaleSequencer × List WhaleOutbound
  | [] => ({ sequencer with queue := [] }, [])
  | request :: queue =>
    match k3WhaleWidth segments request.prompt.length sequencer.world sequencer.chunkTokens with
    | none =>
      let (next, outbound) := gatherFrom { sequencer with nextSeq := sequencer.nextSeq + 1, queue } queue
      (next, { to_ := request.poster, message := .cancel sequencer.nextSeq } :: outbound)
    | some width =>
      let descriptor := request.descriptor sequencer.nextSeq width sequencer.world
      ({ sequencer with
          nextSeq := sequencer.nextSeq + 1
          gathering := some { descriptor, replies := List.replicate descriptor.gang.length none }
          queue },
        broadcast descriptor.gang (.gather descriptor))

def WhaleSequencer.startNextGather (sequencer : WhaleSequencer) : WhaleSequencer × List WhaleOutbound :=
  match sequencer.gathering with
  | some _ => (sequencer, [])
  | none => sequencer.gatherFrom segments sequencer.queue

/-- The fold of `try_commit`: the highest reply, once every member has replied. -/
def Gathering.highest (gathering : Gathering) : Option Nat :=
  gathering.replies.foldlM (fun highest reply => reply.map (max highest)) 0

/-- The launch `try_commit` names: after every reply, and after the last whale. -/
def WhaleSequencer.launchAfter (sequencer : WhaleSequencer) (highest : Nat) : Nat :=
  max (highest + K3_WHALE_COMMIT_SLACK) (sequencer.committedFloor.elim 0 (· + 1))

def WhaleSequencer.tryCommit (sequencer : WhaleSequencer) : WhaleSequencer × List WhaleOutbound :=
  match sequencer.gathering with
  | none => (sequencer, [])
  | some gathering =>
    match gathering.highest with
    | none => (sequencer, [])
    | some highest =>
      let launch := sequencer.launchAfter highest
      let (next, outbound) :=
        { sequencer with gathering := none, committedFloor := some launch }.startNextGather segments
      (next, broadcast gathering.descriptor.gang (.commit gathering.descriptor.seq launch) ++ outbound)

def WhaleSequencer.onMessage (sequencer : WhaleSequencer) :
    WhaleToSequencer → Except String (WhaleSequencer × List WhaleOutbound)
  | .request request =>
    .ok ({ sequencer with queue := sequencer.queue ++ [request] }.startNextGather segments)
  | .ready seq rank count =>
    match sequencer.gathering with
    | none => .ok (sequencer, [])
    | some gathering =>
      if gathering.descriptor.seq ≠ seq then .ok (sequencer, [])
      else
        match gathering.descriptor.cpRankOf rank with
        | none => .error s!"whale {seq}: ready from rank {rank}, which is not in the gang"
        | some cpRank =>
          if (gathering.replies.getD cpRank none).isSome then
            .error s!"whale {seq}: rank {rank} replied ready twice"
          else
            .ok ({ sequencer with
              gathering := some { gathering with
                replies := gathering.replies.set cpRank (some count) } }.tryCommit segments)

/-- `gathering_seq`. -/
def WhaleSequencer.gatheringSeq (sequencer : WhaleSequencer) : Option Nat :=
  sequencer.gathering.map (·.descriptor.seq)

def WhaleSequencer.onGatherTimeout (sequencer : WhaleSequencer) : WhaleSequencer × List WhaleOutbound :=
  match sequencer.gathering with
  | none => (sequencer, [])
  | some gathering =>
    let (next, outbound) := { sequencer with gathering := none }.startNextGather segments
    (next, broadcast gathering.descriptor.gang (.cancel gathering.descriptor.seq) ++ outbound)

end

/-- A committed whale this member will enter. -/
structure CommittedWhale where
  descriptor : WhaleDescriptor
  launch : Nat
  cpRank : Nat
  deriving DecidableEq

inductive WhaleDuty
  | free
  | enter (whale : CommittedWhale)
  deriving DecidableEq

/-- One rank's side of the rendezvous. -/
structure WhaleMember where
  rank : Nat
  armed : List WhaleDescriptor
  committed : List CommittedWhale
  deriving DecidableEq

def WhaleMember.new (rank : Nat) : WhaleMember :=
  { rank, armed := [], committed := [] }

/-- The checks of a commit after its descriptor has left `armed`. -/
def WhaleMember.onCommit (member : WhaleMember) (descriptor : WhaleDescriptor) (seq : Nat)
    (launch count : Nat) :
    Except String WhaleMember :=
  if launch ≤ count then
    .error (s!"whale {seq}: committed to launch {launch}, but rank {member.rank} is already at " ++
      s!"{count} — the commit slack failed to cover the arming window")
  else
    match member.committed.getLast?.filter fun last => launch ≤ last.launch with
    | some last =>
      .error s!"whale {seq}: commit at {launch} does not follow whale {last.descriptor.seq} at {last.launch}"
    | none =>
      match descriptor.cpRankOf member.rank with
      | none => .error "membership checked at gather"
      | some cpRank => .ok { member with committed := member.committed ++ [{ descriptor, launch, cpRank }] }

def WhaleMember.onMessage (member : WhaleMember) (message : WhaleToMember) (count : Nat) :
    Except String (WhaleMember × Option WhaleToSequencer) :=
  match message with
  | .gather descriptor => do
    descriptor.verify
    if (descriptor.cpRankOf member.rank).isNone then
      throw s!"whale {descriptor.seq} gathered rank {member.rank}, which is not in its gang"
    return ({ member with armed := member.armed ++ [descriptor] },
      some (.ready descriptor.seq member.rank count))
  | .commit seq launch =>
    match member.armed.find? (·.seq = seq) with
    | none => .error s!"whale {seq}: commit for a whale this member never gathered"
    | some descriptor => do
      let next ← { member with armed := member.armed.eraseP (·.seq = seq) }.onCommit
        descriptor seq launch count
      return (next, none)
  | .cancel seq => .ok ({ member with armed := member.armed.filter (·.seq ≠ seq) }, none)

def WhaleMember.atLaunch (member : WhaleMember) (count : Nat) : Except String (WhaleMember × WhaleDuty) :=
  match member.committed with
  | [] => .ok (member, .free)
  | front :: rest =>
    if front.launch < count then
      .error (s!"rank {member.rank} is at launch {count}, past whale {front.descriptor.seq}'s " ++
        s!"superstep at {front.launch} — a launch boundary went unconsulted")
    else if front.launch = count then .ok ({ member with committed := rest }, .enter front)
    else .ok (member, .free)

def WhaleMember.isQuiet (member : WhaleMember) : Bool :=
  member.armed.isEmpty && member.committed.isEmpty

end PegaInfer.K3
