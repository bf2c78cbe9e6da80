import PegaInfer.Lib.Reader
import PegaInfer.K3.Sequenced

namespace PegaInfer.K3

/-- `"K3WH"`. -/
def WHALE_MAGIC : Nat := fromLe [0x4b, 0x33, 0x57, 0x48]

def WHALE_VERSION : Nat := 1

def WHALE_MAX_PROMPT_TOKENS : Nat := 2 ^ 22

def WHALE_MAX_WORLD : Nat := 1024

def KIND_REQUEST : Nat := 1
def KIND_READY : Nat := 2
def KIND_GATHER : Nat := 3
def KIND_COMMIT : Nat := 4
def KIND_CANCEL : Nat := 5

def putU32 (value : Nat) : List UInt8 := leBytes 4 value

def putU64 (value : Nat) : List UInt8 := leBytes 8 value

/-- A length or a rank, through `u32::try_from`. -/
def tryPutU32 (context : String) (value : Nat) : Except String (List UInt8) :=
  if value < 2 ^ 32 then .ok (putU32 value) else .error context

def putRank (rank : Nat) : Except String (List UInt8) := tryPutU32 "whale rank" rank

def putTokens (tokens : List Token) : Except String (List UInt8) := do
  let length ← tryPutU32 "whale prompt length" tokens.length
  return length ++ tokens.flatMap fun token => leBytes 4 token.toNat

def putRanks : List Nat → Except String (List UInt8)
  | [] => .ok []
  | rank :: ranks => do
    let first ← putRank rank
    let rest ← putRanks ranks
    return first ++ rest

def getU32 : Reader Nat := do
  let bytes ← Reader.exact "whale frame read" 4
  return fromLe bytes

def getU64 : Reader Nat := do
  let bytes ← Reader.exact "whale frame read" 8
  return fromLe bytes

def getRank : Reader Nat := getU32

/-- `chunks_exact(4)`, each chunk a token. -/
def tokensOf : List UInt8 → List Token
  | a :: b :: c :: d :: bytes => UInt32.ofNat (fromLe [a, b, c, d]) :: tokensOf bytes
  | _ => []

def getTokens : Reader (List Token) := do
  let length ← getU32
  Reader.ensure (length ≤ WHALE_MAX_PROMPT_TOKENS) s!"whale frame claims {length} prompt tokens — framing bug"
  let bytes ← Reader.exact "whale frame read" (length * 4)
  return tokensOf bytes

def getRanks : Nat → Reader (List Nat)
  | 0 => return []
  | count + 1 => do
    let rank ← getRank
    let ranks ← getRanks count
    return rank :: ranks

def writeHeader (kind : Nat) : List UInt8 :=
  putU32 WHALE_MAGIC ++ putU32 WHALE_VERSION ++ putU32 kind

def readHeader : Reader Nat := do
  let magic ← getU32
  Reader.ensure (magic = WHALE_MAGIC) s!"whale link: bad magic 0x{String.ofList (Nat.toDigits 16 magic)}"
  let version ← getU32
  Reader.ensure (version = WHALE_VERSION) s!"whale link: version {version}, expected {WHALE_VERSION}"
  getU32

def writeToSequencer : WhaleToSequencer → Except String (List UInt8)
  | .request request => do
    let poster ← putRank request.poster
    let prompt ← putTokens request.prompt
    return writeHeader KIND_REQUEST ++ putU64 request.request ++ poster ++ prompt
  | .ready seq rank count => do
    let from_ ← putRank rank
    return writeHeader KIND_READY ++ putU64 seq ++ from_ ++ putU64 count

def readToSequencer (kind : Nat) : Reader WhaleToSequencer :=
  if kind = KIND_REQUEST then do
    let request ← getU64
    let poster ← getRank
    let prompt ← getTokens
    return .request { request, poster, prompt }
  else if kind = KIND_READY then do
    let seq ← getU64
    let rank ← getRank
    let count ← getU64
    return .ready seq rank count
  else Reader.fail s!"whale link: kind {kind} is not a sequencer-bound message"

def WhaleToMember.kind : WhaleToMember → Nat
  | .gather _ => KIND_GATHER
  | .commit .. => KIND_COMMIT
  | .cancel _ => KIND_CANCEL

/-- What `write_to_member` puts behind the destination. -/
def putBody : WhaleToMember → Except String (List UInt8)
  | .gather descriptor => do
    let poster ← putRank descriptor.poster
    let length ← tryPutU32 "whale gang size" descriptor.gang.length
    let gang ← putRanks descriptor.gang
    let prompt ← putTokens descriptor.prompt
    return putU64 descriptor.seq ++ putU64 descriptor.request ++ poster ++ length ++ gang ++
      putU64 descriptor.promptHash.toNat ++ prompt
  | .commit seq launch => return putU64 seq ++ putU64 launch
  | .cancel seq => return putU64 seq

def writeToMember (to_ : Nat) (message : WhaleToMember) : Except String (List UInt8) := do
  let rank ← putRank to_
  let body ← putBody message
  return writeHeader message.kind ++ rank ++ body

/-- `descriptor.verify()?`. -/
def Reader.verify (descriptor : WhaleDescriptor) : Reader Unit := fun bytes =>
  match descriptor.verify with
  | .ok () => .ok ((), bytes)
  | .error message => .error message

def readGather : Reader WhaleToMember := do
  let seq ← getU64
  let request ← getU64
  let poster ← getRank
  let gangLen ← getU32
  Reader.ensure (gangLen ≤ WHALE_MAX_WORLD) s!"whale link: gang of {gangLen} ranks"
  let gang ← getRanks gangLen
  let promptHash ← getU64
  let prompt ← getTokens
  let descriptor : WhaleDescriptor :=
    { seq, request, poster, gang, prompt, promptHash := UInt64.ofNat promptHash }
  Reader.verify descriptor
  return .gather descriptor

def readCommit : Reader WhaleToMember := do
  let seq ← getU64
  let launch ← getU64
  return .commit seq launch

def readCancel : Reader WhaleToMember := do
  let seq ← getU64
  return .cancel seq

/-- The `match kind` of `read_to_member`. -/
def readBody (kind : Nat) : Reader WhaleToMember :=
  if kind = KIND_GATHER then readGather
  else if kind = KIND_COMMIT then readCommit
  else if kind = KIND_CANCEL then readCancel
  else Reader.fail s!"whale link: kind {kind} is not a member-bound message"

def readToMember (kind : Nat) : Reader (Nat × WhaleToMember) := do
  let to_ ← getRank
  let message ← readBody kind
  return (to_, message)

/-- The header, then the body it announces. -/
def readSequencerFrame : Reader WhaleToSequencer := readHeader >>= readToSequencer

def readMemberFrame : Reader (Nat × WhaleToMember) := readHeader >>= readToMember

/-- What a message must fit to be read back. Sequences, request ids, launches and
counts are `u64` in the source, so their bounds always hold there. -/
def WhaleToSequencer.Fits : WhaleToSequencer → Prop
  | .request asked =>
    asked.request < 2 ^ 64 ∧ asked.poster < 2 ^ 32 ∧ asked.prompt.length ≤ WHALE_MAX_PROMPT_TOKENS
  | .ready seq rank count => seq < 2 ^ 64 ∧ rank < 2 ^ 32 ∧ count < 2 ^ 64

def WhaleDescriptor.Fits (descriptor : WhaleDescriptor) : Prop :=
  descriptor.seq < 2 ^ 64 ∧ descriptor.request < 2 ^ 64 ∧ descriptor.poster < 2 ^ 32 ∧
    descriptor.gang.length ≤ WHALE_MAX_WORLD ∧ (∀ rank ∈ descriptor.gang, rank < 2 ^ 32) ∧
    descriptor.prompt.length ≤ WHALE_MAX_PROMPT_TOKENS

def WhaleToMember.Fits : WhaleToMember → Prop
  | .gather descriptor => descriptor.Fits ∧ descriptor.verify = .ok ()
  | .commit seq launch => seq < 2 ^ 64 ∧ launch < 2 ^ 64
  | .cancel seq => seq < 2 ^ 64

theorem getU32_decodes {value : Nat} (fits : value < 2 ^ 32) : getU32.Decodes (putU32 value) value :=
  .word "whale frame read" (by omega)

theorem getU64_decodes {value : Nat} (fits : value < 2 ^ 64) : getU64.Decodes (putU64 value) value :=
  .word "whale frame read" (by omega)

theorem tokensOf_flatMap (tokens : List Token) :
    tokensOf (tokens.flatMap fun token => leBytes 4 token.toNat) = tokens := by
  induction tokens with
  | nil => rfl
  | cons token tokens ih =>
    have value : fromLe (leBytes 4 token.toNat) = token.toNat :=
      fromLe_leBytes (by have := token.toNat_lt; omega)
    simp only [leBytes] at value ih
    simp only [List.flatMap_cons, leBytes, List.cons_append, List.nil_append, tokensOf, ih,
      value, UInt32.ofNat_toNat]

theorem tokens_length (tokens : List Token) :
    (tokens.flatMap fun token => leBytes 4 token.toNat).length = tokens.length * 4 := by
  induction tokens with
  | nil => rfl
  | cons token tokens ih =>
    rw [List.flatMap_cons, List.length_append, ih, leBytes_length, List.length_cons]
    omega

theorem getTokens_decodes {tokens : List Token} (fits : tokens.length ≤ WHALE_MAX_PROMPT_TOKENS) :
    getTokens.Decodes (putU32 tokens.length ++ tokens.flatMap fun token => leBytes 4 token.toNat) tokens := by
  have small : tokens.length < 2 ^ 32 := by
    rw [WHALE_MAX_PROMPT_TOKENS] at fits
    omega
  refine (getU32_decodes small).andThen (.silent (.ensure _ (decide_eq_true fits)) ?_)
  have read := Reader.Decodes.exact "whale frame read" (tokens.flatMap fun token => leBytes 4 token.toNat)
  rw [tokens_length] at read
  have whole := read.map tokensOf
  rw [tokensOf_flatMap] at whole
  exact whole

theorem getRanks_decodes {ranks : List Nat} (fit : ∀ rank ∈ ranks, rank < 2 ^ 32) :
    (getRanks ranks.length).Decodes (ranks.flatMap putU32) ranks := by
  induction ranks with
  | nil => exact .return_ []
  | cons rank ranks ih =>
    have head := fit rank List.mem_cons_self
    have tail := ih fun other member => fit other (List.mem_cons_of_mem rank member)
    rw [List.flatMap_cons, ← List.append_nil (ranks.flatMap putU32)]
    exact (getU32_decodes head).andThen (tail.andThen (.return_ _))

theorem readHeader_decodes {kind : Nat} (fits : kind < 2 ^ 32) :
    readHeader.Decodes (writeHeader kind) kind := by
  rw [writeHeader, List.append_assoc]
  refine (getU32_decodes (by decide)).andThen (.silent (.ensure _ (decide_eq_true rfl)) ?_)
  exact (getU32_decodes (by decide)).andThen (.silent (.ensure _ (decide_eq_true rfl)) (getU32_decodes fits))

theorem getU32_extends : getU32.Extends := .andThen (.exact _ 4) fun bytes => .return_ (fromLe bytes)

theorem getU64_extends : getU64.Extends := .andThen (.exact _ 8) fun bytes => .return_ (fromLe bytes)

theorem getTokens_extends : getTokens.Extends := by
  refine .andThen getU32_extends fun length => .andThen (.ensure _ _) fun _ => ?_
  exact .andThen (.exact _ _) fun bytes => .return_ (tokensOf bytes)

theorem getRanks_extends (count : Nat) : (getRanks count).Extends := by
  induction count with
  | zero => exact .return_ []
  | succ count ih =>
    exact .andThen getU32_extends fun rank => .andThen ih fun ranks => .return_ (rank :: ranks)

theorem readHeader_extends : readHeader.Extends := by
  refine .andThen getU32_extends fun magic => .andThen (.ensure _ _) fun _ => ?_
  exact .andThen getU32_extends fun version => .andThen (.ensure _ _) fun _ => getU32_extends

theorem readToSequencer_extends (kind : Nat) : (readToSequencer kind).Extends := by
  rw [readToSequencer]
  split
  · exact .andThen getU64_extends fun _ => .andThen getU32_extends fun _ =>
      .andThen getTokens_extends fun _ => .return_ _
  · split
    · exact .andThen getU64_extends fun _ => .andThen getU32_extends fun _ =>
        .andThen getU64_extends fun _ => .return_ _
    · exact .fail _

theorem verify_extends (descriptor : WhaleDescriptor) : (Reader.verify descriptor).Extends := by
  intro bytes value rest more ran
  rw [Reader.verify] at ran ⊢
  split at ran
  · cases ran
    rfl
  · cases ran

theorem readGather_extends : readGather.Extends := by
  refine .andThen getU64_extends fun seq => .andThen getU64_extends fun request =>
    .andThen getU32_extends fun poster => ?_
  refine .andThen getU32_extends fun gangLen => .andThen (.ensure _ _) fun _ =>
    .andThen (getRanks_extends gangLen) fun gang => ?_
  refine .andThen getU64_extends fun promptHash => .andThen getTokens_extends fun prompt => ?_
  exact .andThen (verify_extends _) fun _ => .return_ _

theorem readBody_extends (kind : Nat) : (readBody kind).Extends := by
  rw [readBody]
  split
  · exact readGather_extends
  · split
    · exact .andThen getU64_extends fun _ => .andThen getU64_extends fun _ => .return_ _
    · split
      · exact .andThen getU64_extends fun _ => .return_ _
      · exact .fail _

theorem readSequencerFrame_extends : readSequencerFrame.Extends :=
  .andThen readHeader_extends readToSequencer_extends

theorem readMemberFrame_extends : readMemberFrame.Extends := by
  refine .andThen readHeader_extends fun kind => .andThen getU32_extends fun to_ => ?_
  exact .andThen (readBody_extends kind) fun _ => .return_ _

theorem putRank_ok {rank : Nat} (fits : rank < 2 ^ 32) : putRank rank = .ok (putU32 rank) := if_pos fits

theorem putRanks_ok {ranks : List Nat} (fit : ∀ rank ∈ ranks, rank < 2 ^ 32) :
    putRanks ranks = .ok (ranks.flatMap putU32) := by
  induction ranks with
  | nil => rfl
  | cons rank ranks ih =>
    have head := putRank_ok (fit rank List.mem_cons_self)
    have tail := ih fun other member => fit other (List.mem_cons_of_mem rank member)
    rw [putRanks, head, tail]
    rfl

theorem putTokens_ok {tokens : List Token} (fits : tokens.length ≤ WHALE_MAX_PROMPT_TOKENS) :
    putTokens tokens = .ok (putU32 tokens.length ++ tokens.flatMap fun token => leBytes 4 token.toNat) := by
  have small : tokens.length < 2 ^ 32 := by
    rw [WHALE_MAX_PROMPT_TOKENS] at fits
    omega
  rw [putTokens, tryPutU32, if_pos small]
  rfl

/-- The bytes of a message are one whole frame of it: they are there, the reader
takes exactly them, and it takes no strict prefix of them. -/
structure Framed {α : Type} (reader : Reader α) (written : Except String (List UInt8)) (message : α)
    (bytes : List UInt8) : Prop where
  written : written = .ok bytes
  nonempty : bytes ≠ []
  decodes : reader.Decodes bytes message
  strict : ∀ early, early <+: bytes → early ≠ bytes → ∃ error, reader early = .error error

theorem writeHeader_append_ne_nil (kind : Nat) (body : List UInt8) : writeHeader kind ++ body ≠ [] := by
  intro empty
  have none_ := congrArg List.length empty
  simp only [writeHeader, putU32, List.length_append, leBytes_length, List.length_nil] at none_
  omega

theorem WhaleToSequencer.Fits.framed {message : WhaleToSequencer} (fits : message.Fits) :
    ∃ bytes, Framed readSequencerFrame (writeToSequencer message) message bytes := by
  cases message with
  | request asked =>
    obtain ⟨request, poster, prompt⟩ := fits
    have decodes : readSequencerFrame.Decodes
      (writeHeader KIND_REQUEST ++ (putU64 asked.request ++ (putU32 asked.poster ++
        (putU32 asked.prompt.length ++ asked.prompt.flatMap fun token => leBytes 4 token.toNat))))
          (.request asked) := by
      refine (readHeader_decodes (by decide)).andThen ?_
      rw [readToSequencer, if_pos rfl]
      refine (getU64_decodes request).andThen ((getU32_decodes poster).andThen ?_)
      exact (getTokens_decodes prompt).map fun tokens =>
        WhaleToSequencer.request { asked with prompt := tokens }
    refine ⟨_, ?_, writeHeader_append_ne_nil _ _, decodes, fun early =>
      decodes.not_cut_short readSequencerFrame_extends⟩
    simp only [writeToSequencer, putRank_ok poster, putTokens_ok prompt, List.append_assoc]
    rfl
  | ready seq rank count =>
    obtain ⟨seq_, rank_, count_⟩ := fits
    have decodes : readSequencerFrame.Decodes
      (writeHeader KIND_READY ++ (putU64 seq ++ (putU32 rank ++ putU64 count)))
        (.ready seq rank count) := by
      refine (readHeader_decodes (by decide)).andThen ?_
      rw [readToSequencer, if_neg (by decide), if_pos rfl]
      refine (getU64_decodes seq_).andThen ((getU32_decodes rank_).andThen ?_)
      exact (getU64_decodes count_).map fun read => WhaleToSequencer.ready seq rank read
    refine ⟨_, ?_, writeHeader_append_ne_nil _ _, decodes, fun early =>
      decodes.not_cut_short readSequencerFrame_extends⟩
    simp only [writeToSequencer, putRank_ok rank_, List.append_assoc]
    rfl

theorem verify_decodes {descriptor : WhaleDescriptor} (passes : descriptor.verify = .ok ()) :
    (Reader.verify descriptor).Decodes [] () := by
  intro rest
  rw [Reader.verify, passes]
  rfl

/-- The bytes `write_to_member` puts down for a descriptor. -/
def WhaleDescriptor.bytes (descriptor : WhaleDescriptor) : List UInt8 :=
  putU64 descriptor.seq ++ (putU64 descriptor.request ++
    (putU32 descriptor.poster ++ (putU32 descriptor.gang.length ++
    (descriptor.gang.flatMap putU32 ++ (putU64 descriptor.promptHash.toNat ++
      (putU32 descriptor.prompt.length ++ descriptor.prompt.flatMap fun token => leBytes 4 token.toNat))))))

theorem WhaleDescriptor.Fits.decodes {descriptor : WhaleDescriptor} (fits : descriptor.Fits)
    (passes : descriptor.verify = .ok ()) : readGather.Decodes descriptor.bytes (.gather descriptor) := by
  obtain ⟨seq, request, poster, gang, ranks, prompt⟩ := fits
  have gangLen : descriptor.gang.length < 2 ^ 32 := by
    rw [WHALE_MAX_WORLD] at gang
    omega
  refine (getU64_decodes seq).andThen ((getU64_decodes request).andThen ((getU32_decodes poster).andThen ?_))
  refine (getU32_decodes gangLen).andThen (.silent (.ensure _ (decide_eq_true gang)) ?_)
  refine (getRanks_decodes ranks).andThen ((getU64_decodes descriptor.promptHash.toNat_lt).andThen ?_)
  rw [← List.append_nil (_ ++ List.flatMap _ _)]
  refine (getTokens_decodes prompt).andThen ?_
  rw [UInt64.ofNat_toNat]
  exact .silent (verify_decodes passes) (.return_ _)

theorem WhaleDescriptor.Fits.put {descriptor : WhaleDescriptor} (fits : descriptor.Fits) :
    putBody (.gather descriptor) = .ok descriptor.bytes := by
  obtain ⟨seq, request, poster, gang, ranks, prompt⟩ := fits
  have gangLen : descriptor.gang.length < 2 ^ 32 := by
    rw [WHALE_MAX_WORLD] at gang
    omega
  simp only [putBody, putRank_ok poster, tryPutU32, if_pos gangLen, putRanks_ok ranks, putTokens_ok prompt]
  show Except.ok _ = Except.ok _
  rw [WhaleDescriptor.bytes]
  simp only [List.append_assoc]

theorem WhaleToMember.Fits.body {message : WhaleToMember} (fits : message.Fits) :
    ∃ bytes, putBody message = .ok bytes ∧ (readBody message.kind).Decodes bytes message := by
  cases message with
  | gather descriptor => exact ⟨descriptor.bytes, fits.1.put, fits.1.decodes fits.2⟩
  | commit seq launch =>
    refine ⟨putU64 seq ++ putU64 launch, rfl, (getU64_decodes fits.1).andThen ?_⟩
    exact (getU64_decodes fits.2).map fun read => WhaleToMember.commit seq read
  | cancel seq => exact ⟨putU64 seq, rfl, (getU64_decodes fits).map WhaleToMember.cancel⟩

theorem WhaleToMember.kind_lt (message : WhaleToMember) : message.kind < 2 ^ 32 := by
  cases message <;> simp only [WhaleToMember.kind] <;> decide

theorem WhaleToMember.Fits.framed {message : WhaleToMember} (fits : message.Fits) {to_ : Nat}
    (rank : to_ < 2 ^ 32) :
    ∃ bytes, Framed readMemberFrame (writeToMember to_ message) (to_, message) bytes := by
  obtain ⟨body, put, read⟩ := fits.body
  have decodes : readMemberFrame.Decodes (writeHeader message.kind ++ (putU32 to_ ++ body))
      (to_, message) := by
    refine (readHeader_decodes message.kind_lt).andThen ((getU32_decodes rank).andThen ?_)
    exact read.map fun message => (to_, message)
  refine ⟨_, ?_, writeHeader_append_ne_nil _ _, decodes, fun early =>
    decodes.not_cut_short readMemberFrame_extends⟩
  simp only [writeToMember, putRank_ok rank, put, List.append_assoc]
  rfl

/-- Frames one after another decode to their messages. -/
theorem frames_decode {α : Type} {reader : Reader α}
    {write : α → Except String (List UInt8)} {messages : List α}
    (framed : ∀ message ∈ messages, ∃ bytes, Framed reader (write message) message bytes) :
    ∃ frames, messages.mapM write = .ok frames ∧ reader.all frames.length frames.flatten = .ok messages := by
  have each : ∃ frames, messages.mapM write = .ok frames ∧
      List.Forall₂ (fun bytes message => bytes ≠ [] ∧ reader.Decodes bytes message) frames messages := by
    induction messages with
    | nil => exact ⟨[], rfl, .nil⟩
    | cons message messages ih =>
      obtain ⟨bytes, frame⟩ := framed message List.mem_cons_self
      obtain ⟨frames, written, decodes⟩ := ih fun other member =>
        framed other (List.mem_cons_of_mem message member)
      refine ⟨bytes :: frames, ?_, .cons ⟨frame.nonempty, frame.decodes⟩ decodes⟩
      rw [List.mapM_cons, frame.written, written]
      rfl
  obtain ⟨frames, written, decodes⟩ := each
  exact ⟨frames, written, Reader.all_flatten decodes (Nat.le_refl _)⟩

section

variable {segments : (total width chunkTokens : Nat) → List (Nat × Nat)}

/-- Every gather among these messages passes the reader's check. -/
def GathersVerify (outbound : List WhaleOutbound) : Prop :=
  ∀ to_ descriptor, { to_, message := .gather descriptor } ∈ outbound → descriptor.verify = .ok ()

theorem gatherFrom_verify (sequencer : WhaleSequencer) (queue : List WhaleRequest) :
    GathersVerify (sequencer.gatherFrom segments queue).2 := by
  induction queue generalizing sequencer with
  | nil => intro to_ descriptor sent; cases sent
  | cons request queue ih =>
    intro to_ descriptor sent
    rw [WhaleSequencer.gatherFrom] at sent
    split at sent
    · rcases List.mem_cons.mp sent with same | later
      · cases same
      · exact ih _ to_ descriptor later
    · obtain ⟨rank, _, same⟩ := List.mem_map.mp sent
      cases same
      exact request.descriptor_verify _ _ _

theorem startNextGather_verify (sequencer : WhaleSequencer) :
    GathersVerify (sequencer.startNextGather segments).2 := by
  rw [WhaleSequencer.startNextGather]
  split
  · intro to_ descriptor sent
    cases sent
  · exact gatherFrom_verify sequencer _

theorem GathersVerify.after_broadcast {gang : List Nat} {message : WhaleToMember}
    {outbound : List WhaleOutbound}
    (other : ∀ descriptor, message ≠ .gather descriptor) (rest : GathersVerify outbound) :
    GathersVerify (broadcast gang message ++ outbound) := by
  intro to_ descriptor sent
  rcases List.mem_append.mp sent with first | later
  · obtain ⟨rank, _, same⟩ := List.mem_map.mp first
    cases same
    exact absurd rfl (other descriptor)
  · exact rest to_ descriptor later

theorem tryCommit_verify (sequencer : WhaleSequencer) : GathersVerify (sequencer.tryCommit segments).2 := by
  rw [WhaleSequencer.tryCommit]
  split
  · intro to_ descriptor sent
    cases sent
  · split
    · intro to_ descriptor sent
      cases sent
    · exact (startNextGather_verify _).after_broadcast fun _ => by simp

theorem onGatherTimeout_verify (sequencer : WhaleSequencer) :
    GathersVerify (sequencer.onGatherTimeout segments).2 := by
  rw [WhaleSequencer.onGatherTimeout]
  split
  · intro to_ descriptor sent
    cases sent
  · exact (startNextGather_verify _).after_broadcast fun _ => by simp

theorem onMessage_verify {sequencer next : WhaleSequencer} {message : WhaleToSequencer}
    {outbound : List WhaleOutbound}
    (ran : sequencer.onMessage segments message = .ok (next, outbound)) : GathersVerify outbound := by
  cases message with
  | request asked =>
    have same : _ = outbound := congrArg Prod.snd (Except.ok.inj ran)
    rw [← same]
    exact startNextGather_verify _
  | ready seq rank count =>
    simp only [WhaleSequencer.onMessage] at ran
    split at ran
    · cases ran
      intro to_ descriptor sent
      cases sent
    · split at ran
      · cases ran
        intro to_ descriptor sent
        cases sent
      · split at ran
        · cases ran
        · split at ran
          · cases ran
          · have same : _ = outbound := congrArg Prod.snd (Except.ok.inj ran)
            rw [← same]
            exact tryCommit_verify _

/-- The wire carries every message that fits it, alone and in a row, takes no part of
a frame for a frame, and refuses no gather of a sequencer. -/
structure WireExact (segments : (total width chunkTokens : Nat) → List (Nat × Nat)) : Prop where
  toSequencer : ∀ message : WhaleToSequencer, message.Fits →
    ∃ bytes, Framed readSequencerFrame (writeToSequencer message) message bytes
  toMember : ∀ (to_ : Nat) (message : WhaleToMember), to_ < 2 ^ 32 → message.Fits →
    ∃ bytes, Framed readMemberFrame (writeToMember to_ message) (to_, message) bytes
  sequencerStream : ∀ messages : List WhaleToSequencer, (∀ message ∈ messages, message.Fits) →
    ∃ frames, messages.mapM writeToSequencer = .ok frames ∧
      readSequencerFrame.all frames.length frames.flatten = .ok messages
  memberStream : ∀ messages : List (Nat × WhaleToMember),
    (∀ message ∈ messages, message.1 < 2 ^ 32 ∧ message.2.Fits) →
    ∃ frames, messages.mapM (fun (to_, message) => writeToMember to_ message) = .ok frames ∧
      readMemberFrame.all frames.length frames.flatten = .ok messages
  onMessage : ∀ (sequencer next : WhaleSequencer) (message : WhaleToSequencer) (outbound : List
    WhaleOutbound),
    sequencer.onMessage segments message = .ok (next, outbound) → GathersVerify outbound
  onGatherTimeout : ∀ sequencer : WhaleSequencer, GathersVerify (sequencer.onGatherTimeout segments).2

theorem whale_wire_exact (segments : (total width chunkTokens : Nat) → List (Nat × Nat)) :
    WireExact segments where
  toSequencer := fun _ fits => fits.framed
  toMember := fun _ _ rank fits => fits.framed rank
  sequencerStream := fun _ fits => frames_decode fun message member => (fits message member).framed
  memberStream := fun _ fits => frames_decode fun message member =>
    (fits message member).2.framed (fits message member).1
  onMessage := fun _ _ _ _ ran => onMessage_verify ran
  onGatherTimeout := onGatherTimeout_verify

/-- A gather of two ranks, read back behind its destination. -/
theorem whale_wire_exact_gather :
    ∃ bytes, Framed readMemberFrame
      (writeToMember 3 (.gather ⟨7, 1, 4, [3, 4], [258, 9], k3WhalePromptHash [258, 9]⟩))
      (3, .gather ⟨7, 1, 4, [3, 4], [258, 9], k3WhalePromptHash [258, 9]⟩) bytes := by
  refine (whale_wire_exact fun _ _ _ => []).toMember 3 _ (by decide)
    ⟨⟨by decide, by decide, by decide, by decide, ?_, by decide⟩, ?_⟩
  · decide
  · simp [WhaleDescriptor.verify]

end

end PegaInfer.K3
