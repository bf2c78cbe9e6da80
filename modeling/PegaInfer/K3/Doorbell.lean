import PegaInfer.Lib.OrderedStreams
import PegaInfer.Basic

namespace PegaInfer.K3

/-- Which ranks a window couples: `halo` moves the conv carry one hop down the chain,
`upstream` fans every upstream publication out to all of its successors. -/
inductive K3CpWindowKind
  | halo
  | upstream
  deriving DecidableEq

/-- The range `first..last`. -/
def span (first last : Nat) : List Nat := List.range' first (last - first)

/-- Ranks whose publications `me` reads this window. -/
def K3CpWindowKind.readsFrom (kind : K3CpWindowKind) (me : Nat) : List Nat :=
  match kind with
  | .halo => span (me - 1) me
  | .upstream => span 0 me

/-- Ranks that read the publications of `me` this window. -/
def K3CpWindowKind.readBy (kind : K3CpWindowKind) (me cpSize : Nat) : List Nat :=
  match kind with
  | .halo => span (min (me + 1) cpSize) (min (me + 2) cpSize)
  | .upstream => span (me + 1) cpSize

theorem mem_span {first last rank : Nat} : rank ∈ span first last ↔ first ≤ rank ∧ rank < last := by
  rw [span, List.mem_range'_1]
  omega

theorem K3CpWindowKind.dual (kind : K3CpWindowKind) {source reader cpSize : Nat} (inside : reader < cpSize) :
    source ∈ kind.readsFrom reader ↔ reader ∈ kind.readBy source cpSize := by
  cases kind <;> simp only [readsFrom, readBy, mem_span] <;> omega

theorem K3CpWindowKind.readsFrom_lt {kind : K3CpWindowKind} {source reader : Nat}
    (reads : source ∈ kind.readsFrom reader) :
    source < reader := by
  cases kind <;> simp only [readsFrom, mem_span] at reads <;> omega

theorem K3CpWindowKind.readBy_lt {kind : K3CpWindowKind} {reader source cpSize : Nat}
    (read : reader ∈ kind.readBy source cpSize) :
    reader < cpSize := by
  cases kind <;> simp only [readBy, mem_span] at read <;> omega

def K3_WHALE_WINDOW_STRIDE : Nat := 4096

def doorbellOf (seq window : Nat) : Nat := (seq + 1) * K3_WHALE_WINDOW_STRIDE + window + 1

/-- The doorbell value window `window` of whale `seq` rings. -/
def windowValue (seq window : Nat) : Except String Nat :=
  if window + 1 < K3_WHALE_WINDOW_STRIDE then .ok (doorbellOf seq window)
  else .error (s!"K3 whale superstep ran {window} exchange windows, past the " ++
    s!"{K3_WHALE_WINDOW_STRIDE} doorbell stride")

/-- The two inboxes of a slab. -/
inductive Bell
  | publish
  | consume
  deriving DecidableEq

/-- A flag of `owner`'s slab, rung by `from_`. -/
structure Flag where
  bell : Bell
  owner : Nat
  from_ : Nat
  deriving DecidableEq

/-- What a rank's stream holds: its publish writes of a window, a ring into the slabs
of `owners`, a wait on its own slab, a read of a peer's publication. -/
inductive StreamOp
  | publish (seq window : Nat)
  | ring (bell : Bell) (owners : List Nat) (value : Nat)
  | wait (bell : Bell) (from_ value : Nat)
  | read (source seq window : Nat)
  deriving DecidableEq

/-- `k3_whale_doorbell_ring`, which is not launched for nobody. -/
def ringAll (bell : Bell) (owners : List Nat) (value : Nat) : List StreamOp :=
  if owners.isEmpty then [] else [.ring bell owners value]

/-- `exchange`: the four beats of a window. The reads are those of `consume`. -/
def exchange (cpRank : Nat) (kind : K3CpWindowKind) (gang : List Nat)
    (doorbell seq window : Nat) : List StreamOp :=
  let readers := (kind.readBy cpRank gang.length).map (gang.getD · 0)
  let sources := (kind.readsFrom cpRank).map (gang.getD · 0)
  ringAll .publish readers doorbell ++ sources.map (.wait .publish · doorbell) ++
    sources.map (.read · seq window) ++
    ringAll .consume sources doorbell ++ readers.map (.wait .consume · doorbell)

/-- The windows of a superstep, each with a fresh `window_sync`. -/
def exchangeAll (cpRank : Nat) (gang : List Nat) (seq : Nat) :
    (window : Nat) → List K3CpWindowKind → Except String (List StreamOp)
  | _, [] => .ok []
  | window, kind :: kinds => do
    let doorbell ← windowValue seq window
    let rest ← exchangeAll cpRank gang seq (window + 1) kinds
    return .publish seq window :: exchange cpRank kind gang doorbell seq window ++ rest

/-- A whale as its members run it. -/
structure Superstep (world : Nat) where
  seq : Nat
  gang : List Nat
  kinds : List K3CpWindowKind
  wide : 2 ≤ gang.length
  nodup : gang.Nodup
  inside : ∀ rank ∈ gang, rank < world
  short : kinds.length < K3_WHALE_WINDOW_STRIDE - 1

/-- The checks of `arm_fleet` on the gang and the sequence; `previous` is `whale_seq`. -/
def armFleet (world rank : Nat) (previous : Option Nat) (seq cpRank : Nat) (gang : List Nat) :
    Except String Unit :=
  if ¬(2 ≤ gang.length ∧ gang.length ≤ world) then
    .error s!"K3 whale gang of {gang.length} ranks in a {world}-rank world"
  else if gang.length ≤ cpRank then .error s!"K3 whale CP rank {cpRank} of {gang.length}"
  else if gang.getD cpRank 0 ≠ rank then
    .error (s!"K3 whale gang seats rank {gang.getD cpRank 0} at CP position {cpRank}, but this " ++
      s!"executor is rank {rank}")
  else if previous.any (seq ≤ ·) then
    .error (s!"K3 whale superstep re-armed at seq {seq}, not after {previous} — its doorbell " ++
      "values would alias an earlier superstep's")
  else .ok ()

/-- What a rank enqueues for the whales it is in, one after another. -/
def streamOf (world rank : Nat) : (previous : Option Nat) → List (Superstep world) →
    Except String (List StreamOp)
  | _, [] => .ok []
  | previous, step :: steps =>
    match step.gang.findIdx? (· = rank) with
    | none => streamOf world rank previous steps
    | some cpRank => do
      armFleet world rank previous step.seq cpRank step.gang
      let early ← exchangeAll cpRank step.gang step.seq 0 step.kinds
      let late ← streamOf world rank (some step.seq) steps
      return early ++ late

/-- The flags of every slab, and the operations run so far on all the streams. -/
structure Fabric where
  flags : Flag → Nat
  log : List (Nat × StreamOp)

def StreamOp.enabled (rank : Nat) (flags : Flag → Nat) : StreamOp → Prop
  | .wait bell from_ value => value ≤ flags { bell, owner := rank, from_ }
  | _ => True

def StreamOp.apply (rank : Nat) (flags : Flag → Nat) : StreamOp → Flag → Nat
  | .ring bell owners value => fun flag => if flag.bell = bell ∧ flag.from_ = rank ∧
    flag.owner ∈ owners then value else flags flag
  | _ => flags

/-- Some stream runs its next operation. -/
inductive FabricStep (stream : Nat → List StreamOp) : Fabric → Fabric → Prop
  | run {fabric : Fabric} {rank : Nat} {op : StreamOp} {rest : List StreamOp} :
      stream rank = ranBy fabric.log rank ++ op :: rest → op.enabled rank fabric.flags →
      FabricStep stream fabric { flags := op.apply rank fabric.flags, log := fabric.log ++ [(rank, op)] }

inductive FabricReach (stream : Nat → List StreamOp) : Fabric → Prop
  | start : FabricReach stream { flags := fun _ => 0, log := [] }
  | next {before after : Fabric} : FabricReach stream before → FabricStep stream before after →
      FabricReach stream after

end PegaInfer.K3
