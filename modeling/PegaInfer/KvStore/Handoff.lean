import PegaInfer.Kvbm.Resident
import PegaInfer.KvStore.Holdings

namespace PegaInfer.KvStore

open PegaInfer.Kvbm

inductive SaveClass
  | cacheable
  | handoff
  deriving DecidableEq

/-- `SaveCursor`; `pending` are the `Handoff` saves whose outcome the retire
awaits, by their number. -/
structure SaveCursor where
  savedBlocks : Nat
  pending : List Nat
  deriving DecidableEq

/-- One submitted save, with the request and the class it was submitted for. A
watcher that dies counts as a failure. -/
structure TierSave (H : Type) where
  request : Nat
  saveClass : SaveClass
  hashes : List H
  outcome : Option Bool
  deriving DecidableEq

/-- What became of a request's KV. -/
inductive KvStage
  | live
  | parked (saveClass : SaveClass)
  | released (saveClass : SaveClass) (handoffFailed : Bool)
  | dropped
  deriving DecidableEq

/-- A request of the rank with its save cursor. Once its blocks are given back
the sequence is what it was then. -/
structure SavedRequest (H : Type) where
  kv : SchedulableSequence H
  cursor : SaveCursor
  stage : KvStage
  deriving DecidableEq

/-- The pages a request computed that no seal of its own has submitted. -/
def SavedRequest.unsealed {H : Type} (request : SavedRequest H) : List H :=
  (request.kv.assigned.drop (max request.kv.prefixMatchedBlocks request.cursor.savedBlocks)).map
    ImmutableBlock.hash

/-- The saving side of a rank with a tier. -/
structure SaveStore (H : Type) where
  pool : BlockPool H
  requests : List (SavedRequest H)
  saves : List (TierSave H)

/-- A request is made, calls the pool, is sealed, retired or dropped; a save
settles; a parked retire wakes. -/
inductive SaveMove
  | newRequest (prompt : List Token) (maxOutputTokens : Nat) (salt : Option SaltHash)
  | call (k : Nat) (op : KvOp)
  | seals (k : Nat) (saveClass : SaveClass)
  | settles (i : Nat) (succeeded : Bool)
  | retire (k : Nat) (saveClass : SaveClass)
  | wakes (k : Nat)
  | drop (k : Nat)

namespace SaveStore

variable {H : Type}

/-- `KvStore::seal`. -/
def sealBlocks (saves : List (TierSave H)) (k : Nat) (request : SavedRequest H) (saveClass : SaveClass) :
    List (TierSave H) × SavedRequest H :=
  let saved := if request.cursor.savedBlocks = 0 then request.kv.prefixMatchedBlocks
    else request.cursor.savedBlocks
  let hashes := request.kv.assigned.map ImmutableBlock.hash
  if hashes.length ≤ saved
    then (saves, { request with cursor := { request.cursor with savedBlocks := saved } })
  else
    (saves ++ [⟨k, saveClass, hashes.drop saved, none⟩],
      { request with
        cursor :=
          { savedBlocks := hashes.length
            pending := request.cursor.pending ++ if saveClass = .handoff then [saves.length] else [] } })

/-- What the receiver of a save's outcome has got. -/
def outcomeOf (saves : List (TierSave H)) (i : Nat) : Option Bool := (saves[i]?).bind TierSave.outcome

variable [DecidableEq H] [SequenceHashing H]

/-- The request's blocks go back to the pool. -/
def freed (w : SaveStore H) (kv : SchedulableSequence H) : BlockPool H :=
  { w.pool with store := kv.dropBlocks w.pool.store }

def step (w : SaveStore H) : SaveMove → Option (SaveStore H)
  | .newRequest prompt maxOutputTokens salt =>
    some
      { w with
        requests := w.requests ++ [⟨(w.pool.newRequest prompt maxOutputTokens salt).seq, ⟨0, []⟩, .live⟩] }
  | .call k op =>
    match w.requests[k]? with
    | some ⟨kv, cursor, .live⟩ =>
      match RequestKv.runOp kv w.pool.store op with
      | .ok (kv', store) =>
        some { w with pool := { w.pool with store }, requests := w.requests.set k ⟨kv', cursor, .live⟩ }
      | .error _ => none
    | _ => none
  | .seals k saveClass =>
    match w.requests[k]? with
    | some request =>
      if request.stage = .live then
        let (saves, sealed) := sealBlocks w.saves k request saveClass
        some { w with requests := w.requests.set k sealed, saves }
      else none
    | none => none
  | .settles i succeeded =>
    match w.saves[i]? with
    | some ⟨request, saveClass, hashes, none⟩ =>
      some { w with saves := w.saves.set i ⟨request, saveClass, hashes, some succeeded⟩ }
    | _ => none
  | .retire k saveClass =>
    match w.requests[k]? with
    | some request =>
      if request.stage = .live then
        let (saves, sealed) := sealBlocks w.saves k request saveClass
        if sealed.cursor.pending = [] then
          some
            { pool := w.freed request.kv
              requests := w.requests.set k { sealed with stage := .released saveClass false }
              saves }
        else some { w with requests := w.requests.set k { sealed with stage := .parked saveClass }, saves }
      else none
    | none => none
  | .wakes k =>
    match w.requests[k]? with
    | some ⟨kv, cursor, .parked saveClass⟩ =>
      if ∀ i ∈ cursor.pending, (outcomeOf w.saves i).isSome then
        let handoffFailed := cursor.pending.any fun i => outcomeOf w.saves i ≠ some true
        some
          { w with
            pool := w.freed kv
            requests := w.requests.set k ⟨kv, cursor, .released saveClass handoffFailed⟩ }
      else none
    | _ => none
  | .drop k =>
    match w.requests[k]? with
    | some ⟨kv, cursor, .live⟩ =>
      some { w with pool := w.freed kv, requests := w.requests.set k ⟨kv, cursor, .dropped⟩ }
    | _ => none

/-- A save under the hash has succeeded. -/
def saved (w : SaveStore H) (hash : H) : Bool :=
  w.saves.any fun save => save.outcome = some true ∧ hash ∈ save.hashes

/-- What a handoff promises the consuming peer. -/
def HandoffComplete (w : SaveStore H) : Prop :=
  ∀ (k : Nat) (request : SavedRequest H), w.requests[k]? = some request →
    request.stage = .released .handoff false →
    ∀ block ∈ request.kv.assigned, w.saved block.hash = true

/-- The `r`-th request computed the page itself, as its `j`-th block. -/
def Registered (requests : List (SavedRequest H)) (r j : Nat) (hash : H) : Prop :=
  ∃ (request : SavedRequest H) (block : ImmutableBlock H), requests[r]? = some request ∧
    request.kv.assigned[j]? = some block ∧ request.kv.prefixMatchedBlocks ≤ j ∧ block.hash = hash

/-- The state a retire under `Handoff` finds: the request's own saves under
`Cacheable` have succeeded, and whoever computed a page it matched has sealed
it, with the saves of that page succeeded. -/
def dependable (w : SaveStore H) : SaveMove → Bool
  | .retire k .handoff =>
    match w.requests[k]? with
    | some request =>
      decide (∀ save ∈ w.saves, save.request = k → save.saveClass = .cacheable → save.outcome = some true) &&
        decide (∀ block ∈ request.kv.assigned.take request.kv.prefixMatchedBlocks,
          (∀ owner ∈ w.requests, block.hash ∉ owner.unsealed) ∧
            ∀ save ∈ w.saves, block.hash ∈ save.hashes → save.outcome = some true)
    | none => true
  | _ => true

/-- The runs of the saving side over one rank's pool. Between the requests'
calls the others pin, evict and draw blocks as they like; a page they make
resident again is one that a request computed. -/
inductive Reach (permitted : SaveStore H → SaveMove → Bool) : SaveStore H → Prop
  | start {blockSize numBlocks : Nat} {pool : BlockPool H} {padding : ImmutableBlock H} (pos : 0 < blockSize)
      (made : BlockPool.new blockSize numBlocks = some (pool, padding)) : Reach permitted ⟨pool, [], []⟩
  | next {w w' : SaveStore H} {move : SaveMove} (before : Reach permitted w)
      (allowed : permitted w move = true)
      (went : w.step move = some w') : Reach permitted w'
  | others {w : SaveStore H} {store : BlockStore H} (before : Reach permitted w)
      (ours : ∀ hash, store.resident hash = true →
        w.pool.store.resident hash = true ∨ ∃ r j, Registered w.requests r j hash) :
      Reach permitted { w with pool := { w.pool with store } }

section Calls

variable {seq seq' : SchedulableSequence H} {store store' : BlockStore H} {op : KvOp}

/-- Past the match, a request's blocks are only added to. -/
theorem runOp_assigned (wf : seq.Wf) (later : op ≠ .matchAndAddPrefix)
    (done : RequestKv.runOp seq store op = .ok (seq', store')) :
    seq.assigned <+: seq'.assigned ∧ seq'.prefixMatchedBlocks = seq.prefixMatchedBlocks := by
  have drawn : ∀ {count : Nat} {state : SequenceState}, seq.Draws count state store seq' store' →
      seq.assigned <+: seq'.assigned ∧ seq'.prefixMatchedBlocks = seq.prefixMatchedBlocks := by
    intro count state draws
    obtain ⟨_, alloc, rfl⟩ := draws
    obtain ⟨ids, -, rfl, -⟩ := SchedulableSequence.allocateBlocks_cases alloc
    exact ⟨List.prefix_rfl, rfl⟩
  cases op with
  | matchAndAddPrefix => exact absurd rfl later
  | schedulePrefill numTokens =>
    obtain ⟨-, -, -, _, -, draws⟩ := SchedulableSequence.schedulePrefill_cases done
    exact drawn draws
  | scheduleDecode =>
    obtain ⟨-, _, -, draws⟩ := SchedulableSequence.scheduleDecode_cases done
    exact drawn draws
  | scheduleSpeculative numDraftTokens =>
    obtain ⟨-, _, _, -, -, draws⟩ := SchedulableSequence.scheduleSpeculative_cases done
    exact drawn draws
  | applyPrefill token =>
    obtain ⟨_, _, blocks, -, -, -, -, rfl⟩ := SchedulableSequence.applyPrefill_cases wf.settled done
    exact ⟨List.prefix_append _ _, rfl⟩
  | applyPrefillChunk =>
    obtain ⟨_, _, blocks, -, -, -, -, rfl⟩ := SchedulableSequence.applyPrefill_cases wf.settled done
    exact ⟨List.prefix_append _ _, rfl⟩
  | applyDecode token =>
    obtain ⟨⟨_, _, _⟩, got, rfl, rfl⟩ := RequestKv.map_ok done
    obtain ⟨_, blocks, -, -, -, rfl⟩ := SchedulableSequence.applyDecode_cases wf.settled got
    exact ⟨List.prefix_append _ _, rfl⟩
  | applySpeculative accepted =>
    obtain ⟨⟨_, _, _⟩, got, rfl, rfl⟩ := RequestKv.map_ok done
    obtain ⟨_, _, blocks, _, _, -, -, -, -, -, -, rfl⟩ :=
      SchedulableSequence.applySpeculative_cases wf.settled got
    exact ⟨List.prefix_append _ _, rfl⟩
  | revertSchedule =>
    obtain ⟨-, _, -, -, rfl⟩ := SchedulableSequence.revertSchedule_cases done
    exact ⟨List.prefix_rfl, rfl⟩
  | padToBoundary =>
    obtain ⟨⟨_, _, _⟩, got, rfl, rfl⟩ := RequestKv.map_ok done
    obtain ⟨-, ⟨-, rfl, -, -⟩ | ⟨-, -, blocks, -, rfl⟩⟩ :=
      SchedulableSequence.padTailBlock_cases wf.settled got
    · exact ⟨List.prefix_rfl, rfl⟩
    · exact ⟨List.prefix_append _ _, rfl⟩
  | adoptExternalPrefillAnchor =>
    obtain ⟨_, got, eq⟩ := RequestKv.map_ok done
    obtain ⟨-, -, -, -, -, rfl⟩ := SchedulableSequence.adoptExternalPrefillAnchor_cases got
    cases eq
    exact ⟨List.prefix_rfl, rfl⟩

/-- A call makes resident only the pages it registers. -/
theorem runOp_resident (wf : seq.Wf) (done : RequestKv.runOp seq store op = .ok (seq', store')) (hash : H)
    (now : store'.resident hash = true) :
    store.resident hash = true ∨ op ≠ .matchAndAddPrefix ∧
      ∃ (j : Nat) (block : ImmutableBlock H), seq'.assigned[j]? = some block ∧ seq.assigned.length ≤ j ∧
        block.hash = hash := by
  have new : ∀ {tokens : List Token} {blocks : List (ImmutableBlock H)} {middle : BlockStore H},
      seq.Registers tokens store blocks middle → seq'.assigned = seq.assigned ++ blocks →
      middle.resident hash = true → store.resident hash = true ∨
        ∃ (j : Nat) (block : ImmutableBlock H), seq'.assigned[j]? = some block ∧ seq.assigned.length ≤ j ∧
          block.hash = hash := by
    intro tokens blocks middle registers grown now
    rcases registers.resident now with before | own
    · exact .inl before
    · obtain ⟨block, member, named⟩ := List.mem_map.mp own
      obtain ⟨i, atI⟩ := List.mem_iff_getElem?.mp member
      refine .inr ⟨seq.assigned.length + i, block, ?_, Nat.le_add_right _ _, named⟩
      rw [grown, List.getElem?_append_right (Nat.le_add_right _ _), Nat.add_sub_cancel_left]
      exact atI
  cases op with
  | matchAndAddPrefix =>
    obtain ⟨⟨_, _, _⟩, got, rfl, rfl⟩ := RequestKv.map_ok done
    obtain ⟨-, -, found, found_eq, rfl, -, -⟩ := SchedulableSequence.matchAndAddPrefix_cases got
    obtain ⟨names, same⟩ := BlockStore.matchBlocks_resident seq.hashes store
    rcases BlockStore.resident_dropAllImmutable _ _ now with before | dropped
    · exact .inl (same ▸ before)
    · have matched : hash ∈ store.residentPrefix seq.hashes := by
        rw [← names, ← found_eq]
        exact List.map_subset _ (List.drop_subset _ _) dropped
      exact .inl (BlockStore.mem_residentPrefix matched).2
  | schedulePrefill numTokens =>
    obtain ⟨-, -, -, _, -, draws⟩ := SchedulableSequence.schedulePrefill_cases done
    exact .inl (draws.resident now)
  | scheduleDecode =>
    obtain ⟨-, _, -, draws⟩ := SchedulableSequence.scheduleDecode_cases done
    exact .inl (draws.resident now)
  | scheduleSpeculative numDraftTokens =>
    obtain ⟨-, _, _, -, -, draws⟩ := SchedulableSequence.scheduleSpeculative_cases done
    exact .inl (draws.resident now)
  | applyPrefill token =>
    obtain ⟨_, _, blocks, -, -, -, registers, rfl⟩ := SchedulableSequence.applyPrefill_cases wf.settled done
    exact (new registers rfl now).imp_right fun page => ⟨by simp, page⟩
  | applyPrefillChunk =>
    obtain ⟨_, _, blocks, -, -, -, registers, rfl⟩ := SchedulableSequence.applyPrefill_cases wf.settled done
    exact (new registers rfl now).imp_right fun page => ⟨by simp, page⟩
  | applyDecode token =>
    obtain ⟨⟨_, _, _⟩, got, rfl, rfl⟩ := RequestKv.map_ok done
    obtain ⟨_, blocks, -, -, registers, rfl⟩ := SchedulableSequence.applyDecode_cases wf.settled got
    exact (new registers rfl now).imp_right fun page => ⟨by simp, page⟩
  | applySpeculative accepted =>
    obtain ⟨⟨_, _, _⟩, got, rfl, rfl⟩ := RequestKv.map_ok done
    obtain ⟨_, _, blocks, _, _, -, -, -, registers, -, rfl, rfl⟩ :=
      SchedulableSequence.applySpeculative_cases wf.settled got
    rw [BlockStore.resident_releaseAllMutable] at now
    exact (new registers rfl now).imp_right fun page => ⟨by simp, page⟩
  | revertSchedule =>
    obtain ⟨-, _, -, rfl, rfl⟩ := SchedulableSequence.revertSchedule_cases done
    exact .inl (by rwa [BlockStore.resident_releaseAllMutable] at now)
  | padToBoundary =>
    obtain ⟨⟨_, _, _⟩, got, rfl, rfl⟩ := RequestKv.map_ok done
    obtain ⟨-, ⟨-, rfl, rfl, -⟩ | ⟨-, -, blocks, registers, rfl⟩⟩ :=
      SchedulableSequence.padTailBlock_cases wf.settled got
    · exact .inl now
    · exact (new registers rfl now).imp_right fun page => ⟨by simp, page⟩
  | adoptExternalPrefillAnchor =>
    obtain ⟨_, got, eq⟩ := RequestKv.map_ok done
    cases eq
    exact .inl now

end Calls

section Saves

variable {saves saves' : List (TierSave H)} {requests requests' : List (SavedRequest H)}

/-- Saves are added and settle; none is changed otherwise. -/
def Extends (saves saves' : List (TierSave H)) : Prop :=
  ∀ (i : Nat) (save : TierSave H), saves[i]? = some save →
    ∃ outcome, saves'[i]? = some { save with outcome } ∧
      ∀ succeeded, save.outcome = some succeeded → outcome = some succeeded

/-- A save under the hash has succeeded or is awaited. -/
def Accounted (saves : List (TierSave H)) (pending : List Nat) (hash : H) : Prop :=
  ∃ (i : Nat) (save : TierSave H), saves[i]? = some save ∧ hash ∈ save.hashes ∧
    (save.outcome = some true ∨ i ∈ pending)

omit [DecidableEq H] [SequenceHashing H] in
theorem Extends.refl (saves : List (TierSave H)) : Extends saves saves :=
  fun _ save atI => ⟨save.outcome, atI, fun _ same => same⟩

omit [DecidableEq H] [SequenceHashing H] in
theorem Extends.append (more : List (TierSave H)) : Extends saves (saves ++ more) := by
  intro i save atI
  refine ⟨save.outcome, ?_, fun _ same => same⟩
  rw [List.getElem?_append_left (List.getElem?_eq_some_iff.mp atI).1]
  exact atI

omit [DecidableEq H] [SequenceHashing H] in
theorem Extends.settle {i request : Nat} {saveClass : SaveClass} {hashes : List H}
    (running : saves[i]? = some ⟨request, saveClass, hashes, none⟩) (succeeded : Bool) :
    Extends saves (saves.set i ⟨request, saveClass, hashes, some succeeded⟩) := by
  intro j save atJ
  by_cases same : i = j
  · subst same
    rw [running] at atJ
    cases atJ
    refine ⟨some succeeded, ?_, by simp⟩
    rw [List.getElem?_set_self (List.getElem?_eq_some_iff.mp running).1]
  · refine ⟨save.outcome, ?_, fun _ same => same⟩
    rw [List.getElem?_set_ne same]
    exact atJ

omit [DecidableEq H] [SequenceHashing H] in
theorem Accounted.mono {pending pending' : List Nat} {hash : H} (accounted : Accounted saves pending hash)
    (longer : Extends saves saves') (more : pending ⊆ pending') : Accounted saves' pending' hash := by
  obtain ⟨i, save, atI, named, settled⟩ := accounted
  obtain ⟨outcome, atI', kept⟩ := longer i save atI
  refine ⟨i, _, atI', named, ?_⟩
  rcases settled with succeeded | awaited
  · exact .inl (kept true succeeded)
  · exact .inr (more awaited)

omit [SequenceHashing H] in
theorem saved_accounted {pool : BlockPool H} {hash : H} :
    SaveStore.saved ⟨pool, requests, saves⟩ hash = true ↔ Accounted saves [] hash := by
  simp only [saved, List.any_eq_true, decide_eq_true_eq, Accounted, List.not_mem_nil, or_false]
  constructor
  · rintro ⟨save, member, succeeded, named⟩
    obtain ⟨i, atI⟩ := List.mem_iff_getElem?.mp member
    exact ⟨i, save, atI, named, succeeded⟩
  · rintro ⟨i, save, atI, named, succeeded⟩
    exact ⟨save, List.mem_of_getElem? atI, succeeded, named⟩

/-- What was computed stays on record. -/
def Recalls (requests requests' : List (SavedRequest H)) : Prop :=
  ∀ (r j : Nat) (hash : H), Registered requests r j hash → Registered requests' r j hash

omit [DecidableEq H] [SequenceHashing H] in
theorem Recalls.append (more : List (SavedRequest H)) : Recalls requests (requests ++ more) := by
  rintro r j hash ⟨request, block, atR, atJ, own, named⟩
  refine ⟨request, block, ?_, atJ, own, named⟩
  rw [List.getElem?_append_left (List.getElem?_eq_some_iff.mp atR).1]
  exact atR

omit [DecidableEq H] [SequenceHashing H] in
theorem Recalls.set {k : Nat} {old new : SavedRequest H} (atK : requests[k]? = some old)
    (kept : ∀ (j : Nat) (block : ImmutableBlock H), old.kv.assigned[j]? = some block →
      old.kv.prefixMatchedBlocks ≤ j → new.kv.assigned[j]? = some block ∧ new.kv.prefixMatchedBlocks ≤ j) :
    Recalls requests (requests.set k new) := by
  rintro r j hash ⟨request, block, atR, atJ, own, named⟩
  by_cases same : k = r
  · subst same
    rw [atK] at atR
    cases atR
    obtain ⟨stays, own⟩ := kept j block atJ own
    refine ⟨new, block, ?_, stays, own, named⟩
    rw [List.getElem?_set_self (List.getElem?_eq_some_iff.mp atK).1]
  · refine ⟨request, block, ?_, atJ, own, named⟩
    rw [List.getElem?_set_ne same]
    exact atR

omit [DecidableEq H] [SequenceHashing H] in
theorem Recalls.sameKv {k : Nat} {old new : SavedRequest H} (atK : requests[k]? = some old)
    (same : new.kv = old.kv) :
    Recalls requests (requests.set k new) :=
  .set atK fun j block atJ own => by rw [same]; exact ⟨atJ, own⟩

omit [DecidableEq H] [SequenceHashing H] in
/-- What someone computed before is computed still. -/
theorem Recalls.computed {held : Prop} {hash : H} (recalls : Recalls requests requests')
    (before : held ∨ ∃ r j, Registered requests r j hash) : held ∨ ∃ r j, Registered requests' r j hash := by
  rcases before with kept | ⟨r, j, registered⟩
  · exact .inl kept
  · exact .inr ⟨r, j, recalls r j hash registered⟩

end Saves

/-- A request's books: each block below the cursor that it computed itself is
in one of its saves, awaited where that was a `Handoff` one; the matched ones
were computed by someone. -/
structure RequestOk (requests : List (SavedRequest H)) (saves : List (TierSave H)) (k : Nat)
    (request : SavedRequest H) :
    Prop where
  wf : request.kv.Wf
  matched : request.kv.prefixMatchedBlocks ≤ request.kv.assigned.length
  within : request.cursor.savedBlocks ≤ request.kv.assigned.length
  submitted : ∀ (i : Nat) (block : ImmutableBlock H), request.kv.assigned[i]? = some block →
    request.kv.prefixMatchedBlocks ≤ i → i < request.cursor.savedBlocks →
    ∃ (n : Nat) (save : TierSave H), saves[n]? = some save ∧ save.request = k ∧ block.hash ∈ save.hashes ∧
      (save.saveClass = .handoff → n ∈ request.cursor.pending)
  known : ∀ (i : Nat) (block : ImmutableBlock H), request.kv.assigned[i]? = some block →
    i < request.kv.prefixMatchedBlocks → ∃ r j, Registered requests r j block.hash
  awaited : request.stage = .parked .handoff → ∀ block ∈ request.kv.assigned,
    Accounted saves request.cursor.pending block.hash
  complete : request.stage = .released .handoff false →
    ∀ block ∈ request.kv.assigned, Accounted saves [] block.hash

omit [DecidableEq H] in
theorem RequestOk.mono {requests requests' : List (SavedRequest H)}
    {saves saves' : List (TierSave H)} {k : Nat}
    {request : SavedRequest H} (ok : RequestOk requests saves k request)
    (recalls : Recalls requests requests')
    (longer : Extends saves saves') : RequestOk requests' saves' k request := by
  refine ⟨ok.wf, ok.matched, ok.within, ?_, ?_, ?_, ?_⟩
  · intro i block atI own below
    obtain ⟨n, save, atN, mine, named, waits⟩ := ok.submitted i block atI own below
    obtain ⟨outcome, atN', -⟩ := longer n save atN
    exact ⟨n, _, atN', mine, named, waits⟩
  · intro i block atI early
    obtain ⟨r, j, registered⟩ := ok.known i block atI early
    exact ⟨r, j, recalls r j block.hash registered⟩
  · exact fun parked block member => (ok.awaited parked block member).mono longer (List.Subset.refl _)
  · exact fun released block member => (ok.complete released block member).mono longer (List.Subset.refl _)

omit [DecidableEq H] in
/-- The books of a request stand in its next stage if its blocks are accounted for as that stage asks. -/
theorem RequestOk.restage {requests : List (SavedRequest H)} {saves : List (TierSave H)} {k : Nat}
    {request : SavedRequest H} {stage : KvStage} (ok : RequestOk requests saves k request)
    (awaited : stage = .parked .handoff → ∀ block ∈ request.kv.assigned,
      Accounted saves request.cursor.pending block.hash)
    (complete : stage = .released .handoff false → ∀ block ∈ request.kv.assigned,
      Accounted saves [] block.hash) :
    RequestOk requests saves k { request with stage } where
  wf := ok.wf
  matched := ok.matched
  within := ok.within
  submitted := ok.submitted
  known := ok.known
  awaited := awaited
  complete := complete

section Runs

variable {w w' : SaveStore H} {move : SaveMove} {requests : List (SavedRequest H)} {saves : List (TierSave H)}
  {saveClass : SaveClass} {k : Nat} {request : SavedRequest H}

omit [DecidableEq H] in
/-- A seal puts every block the request computed into one of its saves. -/
theorem RequestOk.seal (ok : RequestOk requests saves k request) (live : request.stage = .live)
    (saveClass : SaveClass) :
    Extends saves (sealBlocks saves k request saveClass).1 ∧
      RequestOk requests (sealBlocks saves k request saveClass).1 k (sealBlocks saves k request saveClass).2 ∧
      (sealBlocks saves k request saveClass).2.kv = request.kv ∧
      (sealBlocks saves k request saveClass).2.stage = .live ∧
      ∀ (i : Nat) (block : ImmutableBlock H), request.kv.assigned[i]? = some block →
        request.kv.prefixMatchedBlocks ≤ i →
        ∃ (n : Nat) (save : TierSave H), (sealBlocks saves k request saveClass).1[n]? =
          some save ∧ save.request = k ∧
          block.hash ∈ save.hashes ∧
          (save.saveClass = .handoff → n ∈ (sealBlocks saves k request saveClass).2.cursor.pending) ∧
          (saveClass = .handoff → save.saveClass = .cacheable → saves[n]? = some save) := by
  unfold sealBlocks
  extract_lets saved hashes
  have earlier : ∀ (i : Nat) (block : ImmutableBlock H), request.kv.assigned[i]? = some block →
      request.kv.prefixMatchedBlocks ≤ i → i < saved →
      ∃ (n : Nat) (save : TierSave H), saves[n]? = some save ∧ save.request = k ∧ block.hash ∈ save.hashes ∧
        (save.saveClass = .handoff → n ∈ request.cursor.pending) := by
    intro i block atI own early
    by_cases zero : request.cursor.savedBlocks = 0
    · simp only [saved, zero, if_true] at early
      omega
    · exact ok.submitted i block atI own (by simpa [saved, zero] using early)
  split
  · rename_i short
    have all : ∀ (i : Nat) (block : ImmutableBlock H), request.kv.assigned[i]? = some block →
        request.kv.prefixMatchedBlocks ≤ i →
        ∃ (n : Nat) (save : TierSave H), saves[n]? = some save ∧ save.request = k ∧ block.hash ∈ save.hashes ∧
          (save.saveClass = .handoff → n ∈ request.cursor.pending) := by
      intro i block atI own
      have inside := (List.getElem?_eq_some_iff.mp atI).1
      simp only [hashes, List.length_map] at short
      exact earlier i block atI own (by omega)
    have within : saved ≤ request.kv.assigned.length := by
      have matched := ok.matched
      have cursor := ok.within
      simp only [saved]
      split <;> omega
    refine ⟨.refl _, ⟨ok.wf, ok.matched, within, ?_, ok.known, by simp [live], by simp [live]⟩, rfl, live, ?_⟩
    · exact fun i block atI own _ => all i block atI own
    · intro i block atI own
      obtain ⟨n, save, atN, mine, named, waits⟩ := all i block atI own
      exact ⟨n, save, atN, mine, named, waits, fun _ _ => atN⟩
  · rename_i long
    have all : ∀ (i : Nat) (block : ImmutableBlock H), request.kv.assigned[i]? = some block →
        request.kv.prefixMatchedBlocks ≤ i →
        ∃ (n : Nat) (save : TierSave H), (saves ++ [⟨k, saveClass, hashes.drop saved, none⟩])[n]? =
          some save ∧
          save.request = k ∧ block.hash ∈ save.hashes ∧
          (save.saveClass = .handoff →
            n ∈ request.cursor.pending ++ if saveClass = .handoff then [saves.length] else []) ∧
          (saveClass = .handoff → save.saveClass = .cacheable → saves[n]? = some save) := by
      intro i block atI own
      by_cases early : i < saved
      · obtain ⟨n, save, atN, mine, named, waits⟩ := earlier i block atI own early
        refine ⟨n, save, ?_, mine, named, fun must => List.mem_append_left _ (waits must), fun _ _ => atN⟩
        rw [List.getElem?_append_left (List.getElem?_eq_some_iff.mp atN).1]
        exact atN
      · refine ⟨saves.length, ⟨k, saveClass, hashes.drop saved, none⟩, by simp, rfl, ?_, ?_, ?_⟩
        · refine List.mem_iff_getElem?.mpr ⟨i - saved, ?_⟩
          rw [List.getElem?_drop, Nat.add_sub_cancel' (by omega), List.getElem?_map, atI]
          rfl
        · intro must
          simp [show saveClass = .handoff from must]
        · intro handoff cacheable
          simp [handoff] at cacheable
    refine ⟨.append _, ⟨ok.wf, ok.matched, by simp [hashes], ?_,
      ok.known, by simp [live], by simp [live]⟩, rfl, live, all⟩
    intro i block atI own _
    obtain ⟨n, save, atN, mine, named, waits, -⟩ := all i block atI own
    exact ⟨n, save, atN, mine, named, waits⟩

/-- The books of the rank: every request's, and the pool serves only pages
that some request computed. -/
structure AllOk (w : SaveStore H) : Prop where
  size : 0 < w.pool.blockSize
  books : ∀ (k : Nat) (request : SavedRequest H), w.requests[k]? = some request →
    RequestOk w.requests w.saves k request
  pages : ∀ hash, w.pool.store.resident hash = true →
    hash = SequenceHashing.default ∨ ∃ r j, Registered w.requests r j hash

theorem AllOk.set (ok : AllOk w) (size : w'.pool.blockSize = w.pool.blockSize)
    (recalls : Recalls w.requests w'.requests) (longer : Extends w.saves w'.saves)
    (after : w'.requests = w.requests.set k request) (changed : RequestOk w'.requests w'.saves k request)
    (pages : ∀ hash, w'.pool.store.resident hash = true → w.pool.store.resident hash = true ∨
      ∃ r j, Registered w'.requests r j hash) : AllOk w' := by
  refine ⟨size ▸ ok.size, ?_, ?_⟩
  · intro j other atJ
    have atJ' := atJ
    rw [after] at atJ'
    by_cases same : k = j
    · subst same
      have inside : k < w.requests.length := by
        have bound := (List.getElem?_eq_some_iff.mp atJ').1
        rwa [List.length_set] at bound
      rw [List.getElem?_set_self inside] at atJ'
      cases atJ'
      exact changed
    · rw [List.getElem?_set_ne same] at atJ'
      exact (ok.books j other atJ').mono recalls longer
  · intro hash now
    rcases pages hash now with before | computed
    · exact recalls.computed (ok.pages hash before)
    · exact .inr computed

/-- A request moves on with the same blocks. -/
theorem AllOk.restage (ok : AllOk w) (atK : w.requests[k]? = some request) {next : SavedRequest H}
    {pool : BlockPool H} (books : RequestOk w.requests saves k next) (longer : Extends w.saves saves)
    (same : next.kv = request.kv) (size : pool.blockSize = w.pool.blockSize)
    (pages : ∀ hash, pool.store.resident hash = true → w.pool.store.resident hash = true ∨
      ∃ r j, Registered w.requests r j hash) :
    AllOk ⟨pool, w.requests.set k next, saves⟩ := by
  have recalls := Recalls.sameKv atK same
  exact ok.set size recalls longer rfl (books.mono recalls (.refl _))
    fun hash now => recalls.computed (pages hash now)

/-- What a request gives back was computed by someone. -/
theorem AllOk.freed (ok : AllOk w) (atK : w.requests[k]? = some request) (hash : H)
    (now : (w.freed request.kv).store.resident hash = true) :
    w.pool.store.resident hash = true ∨ ∃ r j, Registered w.requests r j hash := by
  rcases SchedulableSequence.resident_dropBlocks now with before | own
  · exact .inl before
  · obtain ⟨block, member, rfl⟩ := List.mem_map.mp own
    obtain ⟨i, atI⟩ := List.mem_iff_getElem?.mp member
    by_cases early : i < request.kv.prefixMatchedBlocks
    · exact .inr ((ok.books k request atK).known i block atI early)
    · exact .inr ⟨k, i, request, block, atK, atI, by omega, rfl⟩

/-- A match pins pages that someone computed. -/
theorem AllOk.matched (collisionFree : CollisionFree H) {store : BlockStore H}
    {kv kv' : SchedulableSequence H}
    {cursor : SaveCursor} (ok : AllOk w) (atK : w.requests[k]? = some ⟨kv, cursor, .live⟩)
    (done : RequestKv.runOp kv w.pool.store .matchAndAddPrefix = .ok (kv', store)) :
    AllOk
      { w with
        pool := { w.pool with store }
        requests := w.requests.set k ⟨kv', cursor, .live⟩ } := by
  have old := ok.books k _ atK
  have wf := RequestKv.runOp_wf old.wf done
  have matched : kv.prefixMatchedBlocks ≤ kv.assigned.length := old.matched
  have within : cursor.savedBlocks ≤ kv.assigned.length := old.within
  have served := runOp_resident old.wf done
  obtain ⟨⟨_, _, count⟩, got, rfl, rfl⟩ := RequestKv.map_ok done
  obtain ⟨-, empty, found, found_eq, -, shape, -⟩ := SchedulableSequence.matchAndAddPrefix_cases got
  obtain ⟨none, -, -⟩ := SchedulableSequence.heldBlocks_eq_zero empty
  simp only [none, List.length_nil, Nat.le_zero] at matched within
  have recalls : ∀ kv', Recalls w.requests (w.requests.set k ⟨kv', cursor, .live⟩) :=
    fun kv' => .set atK fun j block atJ _ => by simp [none] at atJ
  have whole : (kv.afterMatch (found.take ((kv.numInputTokens - 1) / kv.blockSize))).prefixMatchedBlocks =
      (found.take ((kv.numInputTokens - 1) / kv.blockSize)).length := by
    simp only [SchedulableSequence.afterMatch, matched, Nat.zero_add]
  refine ok.set rfl (recalls _) (.refl _) rfl ⟨wf, ?_, ?_, ?_, ?_, by simp, by simp⟩ ?_
  · simp only [shape, whole]
    exact le_rfl
  · simp only [within, Nat.zero_le]
  · simp only [within, Nat.not_lt_zero, false_imp_iff, implies_true]
  · intro i block atI _
    simp only [shape, SchedulableSequence.afterMatch] at atI
    have member : block.hash ∈ w.pool.store.residentPrefix kv.hashes := by
      rw [← (BlockStore.matchBlocks_resident _ _).1, ← found_eq]
      exact List.mem_map_of_mem (List.mem_of_mem_take (List.mem_of_getElem? atI))
    obtain ⟨chained, resident⟩ := BlockStore.mem_residentPrefix member
    obtain ⟨i, -, named⟩ := List.mem_map.mp chained
    rcases ok.pages block.hash resident with padding | ⟨r, j, registered⟩
    · exact absurd (named.trans padding) (collisionFree.fresh _ _)
    · exact ⟨r, j, recalls _ r j block.hash registered⟩
  · intro hash now
    exact .inl ((served hash now).resolve_right fun later => later.1 rfl)

/-- The other calls leave the request's blocks in place and may add to them. -/
theorem AllOk.grown {op : KvOp} {store : BlockStore H} {kv kv' : SchedulableSequence H} {cursor : SaveCursor}
    (ok : AllOk w) (atK : w.requests[k]? = some ⟨kv, cursor, .live⟩) (other : op ≠ .matchAndAddPrefix)
    (done : RequestKv.runOp kv w.pool.store op = .ok (kv', store)) :
    AllOk
      { w with
        pool := { w.pool with store }
        requests := w.requests.set k ⟨kv', cursor, .live⟩ } := by
  have old := ok.books k _ atK
  have matched : kv.prefixMatchedBlocks ≤ kv.assigned.length := old.matched
  have within : cursor.savedBlocks ≤ kv.assigned.length := old.within
  have served := runOp_resident old.wf done
  obtain ⟨⟨more, grown⟩, same⟩ : kv.assigned <+: kv'.assigned ∧
      kv'.prefixMatchedBlocks = kv.prefixMatchedBlocks :=
    runOp_assigned old.wf other done
  have longer : kv.assigned.length ≤ kv'.assigned.length := by
    rw [← grown, List.length_append]
    omega
  have recalls : Recalls w.requests (w.requests.set k ⟨kv', cursor, .live⟩) := by
    refine .set atK fun j block atJ own => ⟨?_, by simp only [same]; exact own⟩
    rw [← grown, List.getElem?_append_left (List.getElem?_eq_some_iff.mp atJ).1]
    exact atJ
  have first : ∀ {i : Nat} {block : ImmutableBlock H}, kv'.assigned[i]? = some block →
      i < kv.assigned.length → kv.assigned[i]? = some block := by
    intro i block atI early
    rwa [← grown, List.getElem?_append_left early] at atI
  refine ok.set rfl recalls (.refl _) rfl
    ⟨RequestKv.runOp_wf old.wf done, ?_, ?_, ?_, ?_, by simp, by simp⟩ ?_
  · simp only [same]
    omega
  · simp only
    omega
  · intro i block atI own below
    simp only [same] at own
    exact old.submitted i block (first atI (by simp only at below; omega)) own below
  · intro i block atI early
    simp only [same] at early
    obtain ⟨r, j, registered⟩ := old.known i block (first atI (by omega)) early
    exact ⟨r, j, recalls r j block.hash registered⟩
  · intro hash now
    rcases served hash now with before | ⟨-, j, block, atJ, new, rfl⟩
    · exact .inl before
    · have here := List.getElem?_set_self (a := ⟨kv', cursor, .live⟩) (List.getElem?_eq_some_iff.mp atK).1
      refine .inr ⟨k, j, ⟨kv', cursor, .live⟩, block, here, atJ, ?_, rfl⟩
      simp only [same]
      exact matched.trans new

theorem AllOk.call (collisionFree : CollisionFree H) {op : KvOp} {store : BlockStore H}
    {kv kv' : SchedulableSequence H} {cursor : SaveCursor} (ok : AllOk w)
    (atK : w.requests[k]? = some ⟨kv, cursor, .live⟩)
    (done : RequestKv.runOp kv w.pool.store op = .ok (kv', store)) :
    AllOk
      { w with
        pool := { w.pool with store }
        requests := w.requests.set k ⟨kv', cursor, .live⟩ } := by
  by_cases matching : op = .matchAndAddPrefix
  · subst matching
    exact ok.matched collisionFree atK done
  · exact ok.grown atK matching done

/-- Every block of a request retired under `Handoff` is saved or awaited. -/
theorem AllOk.dues (ok : AllOk w) (allowed : dependable w (.retire k .handoff) = true)
    (atK : w.requests[k]? = some request) (live : request.stage = .live) (block : ImmutableBlock H)
    (member : block ∈ request.kv.assigned) :
    Accounted (sealBlocks w.saves k request .handoff).1
      (sealBlocks w.saves k request .handoff).2.cursor.pending
      block.hash := by
  simp only [dependable, atK, Bool.and_eq_true, decide_eq_true_eq] at allowed
  obtain ⟨cacheable, others⟩ := allowed
  have mine := ok.books k request atK
  obtain ⟨longer, -, -, -, all⟩ := mine.seal live .handoff
  obtain ⟨i, atI⟩ := List.mem_iff_getElem?.mp member
  by_cases early : i < request.kv.prefixMatchedBlocks
  · obtain ⟨r, j, owner, page, atR, atJ, own, named⟩ := mine.known i block atI early
    obtain ⟨sealedAll, succeeded⟩ :=
      others block (List.mem_of_getElem? (by rwa [List.getElem?_take_of_lt early]))
    have below : j < owner.cursor.savedBlocks := by
      by_contra late
      have atDrop : (owner.kv.assigned.drop (max owner.kv.prefixMatchedBlocks owner.cursor.savedBlocks))[
          j - max owner.kv.prefixMatchedBlocks owner.cursor.savedBlocks]? = some page := by
        rw [List.getElem?_drop, Nat.add_sub_cancel' (by omega)]
        exact atJ
      exact sealedAll owner (List.mem_of_getElem? atR)
        (List.mem_map.mpr ⟨page, List.mem_of_getElem? atDrop, named⟩)
    obtain ⟨n, save, atN, -, within, -⟩ := (ok.books r owner atR).submitted j page atJ own below
    rw [named] at within
    have saved : Accounted w.saves [] block.hash :=
      ⟨n, save, atN, within, .inl (succeeded save (List.mem_of_getElem? atN) within)⟩
    exact saved.mono longer (List.nil_subset _)
  · obtain ⟨n, save, atN, own, within, waits, old⟩ := all i block atI (by omega)
    refine ⟨n, save, atN, within, ?_⟩
    cases saveClass : save.saveClass with
    | handoff => exact .inr (waits saveClass)
    | cacheable => exact .inl (cacheable save (List.mem_of_getElem? (old rfl saveClass)) own saveClass)

theorem AllOk.newRequest (ok : AllOk w) (prompt : List Token) (maxOutputTokens : Nat)
    (salt : Option SaltHash) :
    AllOk
      { w with
        requests := w.requests ++
          [⟨(w.pool.newRequest prompt maxOutputTokens salt).seq, ⟨0, []⟩, .live⟩] } := by
  have recalls : Recalls w.requests
      (w.requests ++ [⟨(w.pool.newRequest prompt maxOutputTokens salt).seq, ⟨0, []⟩, .live⟩]) :=
    .append _
  refine ⟨ok.size, ?_, fun hash now => recalls.computed (ok.pages hash now)⟩
  intro k request atK
  by_cases old : k < w.requests.length
  · rw [List.getElem?_append_left old] at atK
    exact (ok.books k request atK).mono recalls (.refl _)
  · rw [List.getElem?_append_right (by omega)] at atK
    cases List.mem_singleton.mp (List.mem_of_getElem? atK)
    refine ⟨SchedulableSequence.wf_new prompt maxOutputTokens ok.size salt, Nat.zero_le _, Nat.zero_le _,
      ?_, ?_, by simp, by simp⟩
    all_goals simp [BlockPool.newRequest, SchedulableSequence.new]

omit [DecidableEq H] in
/-- The waiting is over: the request is complete if no save it awaited has failed. -/
theorem RequestOk.woken {requests : List (SavedRequest H)} {kv : SchedulableSequence H} {cursor : SaveCursor}
    (ok : RequestOk requests saves k ⟨kv, cursor, .parked saveClass⟩) :
    RequestOk requests saves k ⟨kv, cursor, .released saveClass
      (cursor.pending.any fun i => outcomeOf saves i ≠ some true)⟩ := by
  refine ok.restage (by simp) fun released block member => ?_
  simp only [KvStage.released.injEq, List.any_eq_false, decide_eq_true_eq, not_not] at released
  obtain ⟨rfl, landed⟩ := released
  obtain ⟨n, save, atN, named, done⟩ := ok.awaited rfl block member
  refine ⟨n, save, atN, named, .inl ?_⟩
  rcases done with succeeded | awaited
  · exact succeeded
  · simpa [outcomeOf, atN] using landed n awaited

theorem AllOk.step (collisionFree : CollisionFree H) (ok : AllOk w) (allowed : dependable w move = true)
    (went : w.step move = some w') : AllOk w' := by
  cases move with
  | newRequest prompt maxOutputTokens salt =>
    cases went
    exact ok.newRequest prompt maxOutputTokens salt
  | call k op =>
    simp only [SaveStore.step] at went
    split at went
    · rename_i kv cursor atK
      split at went
      · rename_i kv' store done
        cases went
        exact ok.call collisionFree atK done
      · simp at went
    · simp at went
  | seals k saveClass =>
    simp only [SaveStore.step] at went
    split at went
    · rename_i request atK
      split at went
      · rename_i live
        cases went
        obtain ⟨longer, sealed, same, -, -⟩ := (ok.books k request atK).seal live saveClass
        exact ok.restage atK sealed longer same rfl fun hash now => .inl now
      · simp at went
    · simp at went
  | settles i succeeded =>
    simp only [SaveStore.step] at went
    split at went
    · rename_i running
      cases went
      exact ⟨ok.size, fun k request atK => (ok.books k request atK).mono (fun _ _ _ same => same)
        (.settle running succeeded), ok.pages⟩
    · simp at went
  | retire k saveClass =>
    simp only [SaveStore.step] at went
    split at went
    · rename_i request atK
      split at went
      · rename_i live
        obtain ⟨longer, sealed, same, -, -⟩ := (ok.books k request atK).seal live saveClass
        have covered : saveClass = .handoff →
          ∀ block ∈ (sealBlocks w.saves k request saveClass).2.kv.assigned,
            Accounted (sealBlocks w.saves k request saveClass).1
              (sealBlocks w.saves k request saveClass).2.cursor.pending block.hash := by
          rintro rfl block member
          exact ok.dues allowed atK live block (same ▸ member)
        split at went
        · rename_i none
          cases went
          refine ok.restage atK (sealed.restage (by simp) fun released => ?_) longer same rfl (ok.freed atK)
          rw [none] at covered
          exact covered (KvStage.released.inj released).1
        · cases went
          refine ok.restage atK (sealed.restage (fun parked => ?_) (by simp)) longer same rfl
            fun hash now => .inl now
          exact covered (KvStage.parked.inj parked)
      · simp at went
    · simp at went
  | wakes k =>
    simp only [SaveStore.step] at went
    split at went
    · rename_i kv cursor saveClass atK
      split at went
      · cases went
        exact ok.restage atK (ok.books k _ atK).woken (.refl _) rfl rfl (ok.freed atK)
      · simp at went
    · simp at went
  | drop k =>
    simp only [SaveStore.step] at went
    split at went
    · rename_i kv cursor atK
      cases went
      exact ok.restage atK ((ok.books k _ atK).restage (by simp) (by simp)) (.refl _) rfl rfl (ok.freed atK)
    · simp at went

theorem AllOk.start {blockSize numBlocks : Nat} {pool : BlockPool H} {padding : ImmutableBlock H}
    (pos : 0 < blockSize)
    (made : BlockPool.new blockSize numBlocks = some (pool, padding)) : AllOk ⟨pool, [], []⟩ := by
  unfold BlockPool.new at made
  split at made
  · rename_i fresh id alloc
    split at made
    · rename_i store block register
      simp only [Option.some.injEq, Prod.mk.injEq] at made
      obtain ⟨rfl, rfl⟩ := made
      refine ⟨pos, by simp, ?_⟩
      intro hash now
      obtain ⟨-, before | own⟩ := BlockStore.resident_register register now
      · have empty := BlockStore.resident_allocate alloc before
        simp [BlockStore.resident, BlockStore.new] at empty
      · exact .inl own
    · simp at made
  · simp at made

/-- Where requests retired under `Handoff` are dependable, every handoff
released without a counted failure is complete. -/
theorem Reach.handoff_complete (collisionFree : CollisionFree H) (reach : Reach dependable w) :
    w.HandoffComplete := by
  have ok : AllOk w := by
    induction reach with
    | start pos made => exact .start pos made
    | next before allowed went ih => exact ih.step collisionFree allowed went
    | others before ours ih =>
      refine ⟨ih.size, ih.books, fun hash now => ?_⟩
      exact (ours hash now).elim (ih.pages hash) .inr
  intro k request atK released block member
  exact saved_accounted.mpr ((ok.books k request atK).complete released block member)

end Runs

/-- A run on its own, `none` where a move is not permitted. -/
def run (permitted : SaveStore H → SaveMove → Bool) (w : SaveStore H) : List SaveMove → Option (SaveStore H)
  | [] => some w
  | move :: moves => if permitted w move then (w.step move).bind fun w' => w'.run permitted moves else none

theorem Reach.run {permitted : SaveStore H → SaveMove → Bool} {w w' : SaveStore H} {moves : List SaveMove}
    (reach : Reach permitted w) (ran : w.run permitted moves = some w') : Reach permitted w' := by
  induction moves generalizing w with
  | nil =>
    cases ran
    exact reach
  | cons move moves ih =>
    simp only [SaveStore.run] at ran
    split at ran
    · rename_i allowed
      obtain ⟨next, went, ran⟩ := Option.bind_eq_some_iff.mp ran
      exact ih (reach.next allowed went) ran
    · simp at ran

theorem run_reaches {permitted : SaveStore H → SaveMove → Bool} {blockSize numBlocks : Nat}
    {moves : List SaveMove}
    {w : SaveStore H} (pos : 0 < blockSize)
    (ran : ((BlockPool.new blockSize numBlocks).bind fun made =>
      SaveStore.run permitted ⟨made.1, [], []⟩ moves) = some w) : Reach permitted w := by
  obtain ⟨⟨pool, padding⟩, made, ran⟩ := Option.bind_eq_some_iff.mp ran
  exact (Reach.start pos made).run ran

end SaveStore

/-- The second request is sealed while it has nothing, matches the page the
first one saved and computes one more. -/
def savedMatch : List SaveMove :=
  [.newRequest [1, 2, 3] 1 none, .call 0 (.schedulePrefill 3), .call 0 (.applyPrefill 9), .seals 0 .cacheable,
    .newRequest [1, 2, 3, 4, 5] 1 none, .seals 1 .cacheable, .call 1 .matchAndAddPrefix,
      .call 1 (.schedulePrefill 3),
    .call 1 (.applyPrefill 9), .settles 0 true, .retire 1 .handoff, .settles 1 true, .wakes 1]

theorem SaveStore.Reach.handoff_complete_shared_page :
    ∃ w : SaveStore ChainKey, SaveStore.Reach SaveStore.dependable w ∧
      w.requests.map (fun request =>
        (request.stage, request.kv.prefixMatchedBlocks, request.kv.assigned.length)) =
        [(.live, 0, 1), (.released .handoff false, 1, 2)] ∧ w.saves.length = 2 ∧ w.HandoffComplete := by
  have shape : ((BlockPool.new 2 6).bind fun made =>
      SaveStore.run SaveStore.dependable ⟨made.1, [], []⟩ savedMatch).map (fun w : SaveStore ChainKey =>
        (w.requests.map fun request => (request.stage, request.kv.prefixMatchedBlocks,
          request.kv.assigned.length),
          w.saves.length)) =
      some ([(.live, 0, 1), (.released .handoff false, 1, 2)], 2) := by decide +kernel
  obtain ⟨w, ran, shape⟩ := Option.map_eq_some_iff.mp shape
  simp only [Prod.mk.injEq] at shape
  have reach := SaveStore.run_reaches (by decide) ran
  exact ⟨w, reach, shape.1, shape.2, SaveStore.Reach.handoff_complete chainKey_collisionFree reach⟩

/-- The first request's save of the page fails; the second one matches the
page and is retired at once. -/
def unsavedMatch : List SaveMove :=
  [.newRequest [1, 2, 3] 1 none, .call 0 (.schedulePrefill 3), .call 0 (.applyPrefill 9), .seals 0 .cacheable,
    .settles 0 false, .newRequest [1, 2, 3] 1 none, .call 1 .matchAndAddPrefix, .retire 1 .handoff]

theorem SaveStore.Reach.matched_page_unsaved :
    ¬ ∀ w : SaveStore ChainKey, SaveStore.Reach (fun _ _ => true) w → w.HandoffComplete := by
  intro complete
  have shape : ((BlockPool.new 2 5).bind fun made =>
      SaveStore.run (fun _ _ => true) ⟨made.1, [], []⟩ unsavedMatch).bind (fun w : SaveStore ChainKey =>
        (w.requests[1]?).bind fun request =>
          (request.kv.assigned[0]?).map fun block => (request.stage, w.saved block.hash)) =
      some (.released .handoff false, false) := by decide +kernel
  obtain ⟨w, ran, shape⟩ := Option.bind_eq_some_iff.mp shape
  obtain ⟨request, atK, shape⟩ := Option.bind_eq_some_iff.mp shape
  obtain ⟨block, atI, shape⟩ := Option.map_eq_some_iff.mp shape
  simp only [Prod.mk.injEq] at shape
  obtain ⟨released, unsaved⟩ := shape
  have saved := complete w (SaveStore.run_reaches (by decide) ran) 1 request atK released block
    (List.mem_of_getElem? atI)
  simp [unsaved] at saved

end PegaInfer.KvStore
