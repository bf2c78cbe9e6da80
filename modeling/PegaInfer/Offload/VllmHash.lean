import PegaInfer.KvStore.PrefixSound
import PegaInfer.Lib.Cbor
import PegaInfer.Lib.Slices

namespace PegaInfer.Offload

open Cbor Kvbm KvStore Slices

/-- `[u8; VLLM_HASH_BYTES]`. -/
abbrev VllmHash := { bytes : List UInt8 // bytes.length = 16 }

def vllmHashBytes : UInt64 := 16

def majorUint : UInt8 := 0

def majorBstr : UInt8 := 2

def majorTstr : UInt8 := 3

def majorArray : UInt8 := 4

def cborNull : UInt8 := 0xf6

/-- What `write_head` pushes. -/
def writeHead (major : UInt8) (value : UInt64) : List UInt8 :=
  let m := major <<< 5
  if value ≤ 23 then [m ||| value.toUInt8]
  else if value ≤ 0xff then [m ||| 0x18, value.toUInt8]
  else if value ≤ 0xffff then (m ||| 0x19) :: bigEndian 2 value.toUInt16.toNat
  else if value ≤ 0xffffffff then (m ||| 0x1a) :: bigEndian 4 value.toUInt32.toNat
  else (m ||| 0x1b) :: bigEndian 8 value.toNat

/-- The bytes `hash_block` hands to the digest. -/
def blockInput (parent : VllmHash) (tokenIds : List Token) : List UInt8 :=
  writeHead majorArray 3 ++ (writeHead majorBstr vllmHashBytes ++ (parent.1 ++
    (writeHead majorArray (UInt64.ofNat tokenIds.length) ++
      (tokenIds.flatMap (fun t => writeHead majorUint t.toUInt64) ++ [cborNull]))))

/-- What the bytes of a block are to say: `(parent, token ids, null)`. -/
def blockItem (parent : VllmHash) (tokenIds : List Token) : Item :=
  .array [.bytes parent.1, .array (tokenIds.map fun t => .uint t.toNat), .null]

/-- `block_size` is a `usize` that `new` has found positive. -/
structure VllmBlockHasher where
  noneHash : VllmHash
  blockSize : Nat
  positive : 0 < blockSize
  word : blockSize < 2 ^ 64

namespace VllmBlockHasher

variable (xxh3 : List UInt8 → VllmHash)

/-- `VllmBlockHasher::new`, `none` where it panics. -/
def new (pythonHashSeed : String) (blockSize : UInt64) : Option VllmBlockHasher :=
  let seed := pythonHashSeed.toUTF8.data.toList
  if positive : 0 < blockSize.toNat then
    some
      { noneHash := xxh3 (writeHead majorTstr (UInt64.ofNat seed.length) ++ seed)
        blockSize := blockSize.toNat
        positive
        word := blockSize.toNat_lt }
  else none

def hashBlock (hasher : VllmBlockHasher) (parent : Option VllmHash) (tokenIds : List Token) : VllmHash :=
  xxh3 (blockInput (parent.getD hasher.noneHash) tokenIds)

/-- The loop of `key_chain` over the chunks left. -/
def keysFrom (hasher : VllmBlockHasher) : Option VllmHash → List (List Token) → List VllmHash
  | _, [] => []
  | parent, chunk :: chunks =>
    let h := hasher.hashBlock xxh3 parent chunk
    h :: hasher.keysFrom (some h) chunks

def keyChain (hasher : VllmBlockHasher) (tokenIds : List Token) : List VllmHash :=
  hasher.keysFrom xxh3 none (chunksExact hasher.blockSize tokenIds)

/-- The bytes hashed along the loop of `key_chain`. -/
def inputsFrom (hasher : VllmBlockHasher) : Option VllmHash → List (List Token) → List (List UInt8)
  | _, [] => []
  | parent, chunk :: chunks =>
    blockInput (parent.getD hasher.noneHash) chunk ::
      hasher.inputsFrom (some (hasher.hashBlock xxh3 parent chunk)) chunks

def hashedInputs (hasher : VllmBlockHasher) (tokenIds : List Token) : List (List UInt8) :=
  hasher.inputsFrom xxh3 none (chunksExact hasher.blockSize tokenIds)

end VllmBlockHasher

/-- `cpu_query_window`. -/
def cpuQueryWindow {H : Type} (probe : PrefixProbe H) : Nat := probe.cacheable - probe.gpuHit

/-- The keys `begin_kv_prefetch` queries in the vLLM-compatible mode;
slicing past the chain is a panic. -/
def compatQueryHashes {H : Type} (xxh3 : List UInt8 → VllmHash) (hasher : VllmBlockHasher)
    (probe : PrefixProbe H)
    (promptTokens : List Token) : Option (List VllmHash) :=
  let window := cpuQueryWindow probe
  let start := probe.gpuHit
  let chain := hasher.keyChain xxh3 promptTokens
  if start + window ≤ chain.length then some ((chain.drop start).take window) else none

variable {xxh3 : List UInt8 → VllmHash} {hasher : VllmBlockHasher} {x y : List UInt8}

theorem lead_of_small (major : Fin 8) (value : Fin 24) :
    (UInt8.ofNat major <<< 5 ||| UInt8.ofNat value : UInt8) = lead major value := by
  revert major value
  decide

theorem lead_of_wide (major : Fin 8) :
    (UInt8.ofNat major <<< 5 ||| 0x18 : UInt8) = lead major 24 ∧
      (UInt8.ofNat major <<< 5 ||| 0x19 : UInt8) = lead major 25 ∧
      (UInt8.ofNat major <<< 5 ||| 0x1a : UInt8) = lead major 26 ∧
      (UInt8.ofNat major <<< 5 ||| 0x1b : UInt8) = lead major 27 := by
  revert major
  decide

/-- The five cases of `write_head` are the shortest heads. -/
theorem writeHead_eq (major : Fin 8) (value : UInt64) :
    writeHead (UInt8.ofNat major) value = head major value.toNat := by
  obtain ⟨one, two, four, eight⟩ := lead_of_wide major
  have fits (bound : UInt64) : value ≤ bound ↔ value.toNat < bound.toNat + 1 := by
    rw [UInt64.le_iff_toNat_le, Nat.lt_succ_iff]
  simp only [writeHead, head, fits, UInt64.reduceToNat, Nat.reduceAdd, Nat.reducePow]
  split_ifs with direct byte short long
  · rw [← lead_of_small major ⟨_, direct⟩]
    rfl
  · rw [one]
    rfl
  · rw [two, UInt64.toNat_toUInt16, Nat.mod_eq_of_lt short]
  · rw [four, UInt64.toNat_toUInt32, Nat.mod_eq_of_lt long]
  · rw [eight]

theorem encodeAll_tokens (tokenIds : List Token) :
    encodeAll (tokenIds.map fun t => .uint t.toNat) = tokenIds.flatMap fun t =>
      writeHead majorUint t.toUInt64 := by
  induction tokenIds with
  | nil => rfl
  | cons t tokenIds ih =>
    simp only [List.map_cons, encodeAll, encode, List.flatMap_cons, ih]
    rw [← UInt32.toNat_toUInt64, show writeHead majorUint t.toUInt64 = head 0 t.toUInt64.toNat
      from writeHead_eq 0 _]

theorem blockInput_eq_encode {parent : VllmHash} {tokenIds : List Token} (word : tokenIds.length < 2 ^ 64) :
    blockInput parent tokenIds = encode (blockItem parent tokenIds) := by
  have count : (UInt64.ofNat tokenIds.length).toNat = tokenIds.length := by
    rw [UInt64.toNat_ofNat', Nat.mod_eq_of_lt word]
  have array (value : UInt64) : writeHead majorArray value = head 4 value.toNat := writeHead_eq 4 value
  have bstr : writeHead majorBstr vllmHashBytes = head 2 parent.1.length := by
    rw [parent.2]
    exact writeHead_eq 2 16
  simp only [blockInput, blockItem, encode, encodeAll, List.length_map, encodeAll_tokens, array, bstr, count]
  simp [lead, cborNull]

theorem blockInput_canonical {parent : VllmHash} {tokenIds : List Token} (word : tokenIds.length < 2 ^ 64) :
    Canonical (blockItem parent tokenIds) (blockInput parent tokenIds) := by
  have tokens (tokenIds : List Token) : FitsAll (tokenIds.map fun t => .uint t.toNat) := by
    induction tokenIds with
    | nil => trivial
    | cons t tokenIds ih => exact ⟨by have := t.toNat_lt; unfold Fits; omega, ih⟩
  rw [blockInput_eq_encode word]
  refine encode_canonical _ ⟨by simp, ?_, ⟨?_, tokens tokenIds⟩, trivial, trivial⟩
  · unfold Fits
    rw [parent.2]
    omega
  · rw [List.length_map]
    exact word

/-- A head shows where it ends. -/
theorem writeHead_append_inj (major : Fin 8) {a b : UInt64}
    (same : writeHead (UInt8.ofNat major) a ++ x = writeHead (UInt8.ofNat major) b ++ y) : a = b ∧ x = y := by
  rw [writeHead_eq, writeHead_eq] at same
  obtain ⟨values, tails⟩ := IsHead.append_inj (head_isHead a.toNat_lt) (head_isHead b.toNat_lt) same
  exact ⟨UInt64.toNat_inj.mp values, tails⟩

/-- No token starts with the byte of `null`. -/
theorem writeHead_ne_null {a : UInt64} : writeHead majorUint a ++ x ≠ cborNull :: y := by
  obtain ⟨info, rest, small, same⟩ := (head_isHead a.toNat_lt : IsHead 0 a.toNat (head 0 a.toNat)).lead
  intro clash
  rw [show writeHead majorUint a = head 0 a.toNat from writeHead_eq 0 a, same, List.cons_append] at clash
  have first := congrArg UInt8.toNat (List.cons.inj clash).1
  simp only [lead, cborNull, UInt8.toNat_ofNat', UInt8.reduceToNat] at first
  omega

theorem tokens_injective {left right : List Token}
    (same : left.flatMap (fun t => writeHead majorUint t.toUInt64) ++ [cborNull] =
      right.flatMap (fun t => writeHead majorUint t.toUInt64) ++ [cborNull]) : left = right := by
  induction left generalizing right with
  | nil =>
    cases right with
    | nil => rfl
    | cons t right => exact absurd (by simpa using same.symm) writeHead_ne_null
  | cons t left ih =>
    cases right with
    | nil => exact absurd (by simpa using same) writeHead_ne_null
    | cons t' right =>
      simp only [List.flatMap_cons, List.append_assoc] at same
      obtain ⟨first, rest⟩ := writeHead_append_inj 0 same
      rw [UInt32.toUInt64_inj.mp first, ih rest]

theorem blockInput_injective : Function.Injective2 blockInput := by
  intro parent parent' left right same
  obtain ⟨-, body⟩ := writeHead_append_inj 4 same
  obtain ⟨-, content⟩ := writeHead_append_inj 2 body
  obtain ⟨parents, tail⟩ := List.append_inj content (by rw [parent.2, parent'.2])
  obtain ⟨-, tokens⟩ := writeHead_append_inj 4 tail
  exact ⟨Subtype.ext parents, tokens_injective tokens⟩

namespace VllmBlockHasher

@[simp] theorem length_keysFrom (parent : Option VllmHash) (chunks : List (List Token)) :
    (hasher.keysFrom xxh3 parent chunks).length = chunks.length := by
  induction chunks generalizing parent with
  | nil => rfl
  | cons chunk chunks ih => rw [keysFrom, List.length_cons, ih, List.length_cons]

@[simp] theorem length_keyChain (tokenIds : List Token) :
    (hasher.keyChain xxh3 tokenIds).length = tokenIds.length / hasher.blockSize := by
  rw [keyChain, length_keysFrom, length_chunksExact]

/-- Two chains agree at a place exactly when they start alike and hash the same chunks up to it. -/
theorem keysFrom_eq_iff {collides : Set (List UInt8)} (free : Set.InjOn xxh3 collides) (i : Nat)
    (parent parent' : Option VllmHash) (left right : List (List Token))
    (hashedL : ∀ input ∈ hasher.inputsFrom xxh3 parent left, input ∈ collides)
    (hashedR : ∀ input ∈ hasher.inputsFrom xxh3 parent' right, input ∈ collides)
    (insideL : i < left.length) (insideR : i < right.length) :
    (hasher.keysFrom xxh3 parent left)[i]? = (hasher.keysFrom xxh3 parent' right)[i]? ↔
      parent.getD hasher.noneHash = parent'.getD hasher.noneHash ∧
        left.take (i + 1) = right.take (i + 1) := by
  induction i generalizing parent parent' left right with
  | zero =>
    obtain ⟨chunk, left, rfl⟩ := List.exists_cons_of_length_pos insideL
    obtain ⟨chunk', right, rfl⟩ := List.exists_cons_of_length_pos insideR
    have same := free.eq_iff (hashedL _ List.mem_cons_self) (hashedR _ List.mem_cons_self)
    simp only [keysFrom, List.getElem?_cons_zero, Option.some.injEq, List.take_succ_cons,
      List.take_zero, List.cons.injEq, and_true]
    rw [hashBlock, hashBlock, same, blockInput_injective.eq_iff]
  | succ i ih =>
    obtain ⟨chunk, left, rfl⟩ := List.exists_cons_of_length_pos (Nat.zero_lt_of_lt insideL)
    obtain ⟨chunk', right, rfl⟩ := List.exists_cons_of_length_pos (Nat.zero_lt_of_lt insideR)
    have same := free.eq_iff (hashedL _ List.mem_cons_self) (hashedR _ List.mem_cons_self)
    have later := ih (some (hasher.hashBlock xxh3 parent chunk))
      (some (hasher.hashBlock xxh3 parent' chunk')) left right
      (fun input member => hashedL input (List.mem_cons_of_mem _ member))
      (fun input member => hashedR input (List.mem_cons_of_mem _ member)) (by simpa using insideL)
        (by simpa using insideR)
    simp only [keysFrom, List.getElem?_cons_succ, List.take_succ_cons, List.cons.injEq]
    rw [later, Option.getD_some, Option.getD_some, hashBlock, hashBlock, same,
      blockInput_injective.eq_iff, and_assoc]

theorem keyChain_eq_iff {left right : List Token}
    (free : Set.InjOn xxh3 {input | input ∈ hasher.hashedInputs xxh3 left ∨
      input ∈ hasher.hashedInputs xxh3 right}) (i : Nat) :
    (∃ key, (hasher.keyChain xxh3 left)[i]? = some key ∧ (hasher.keyChain xxh3 right)[i]? = some key) ↔
      (i + 1) * hasher.blockSize ≤ left.length ∧ (i + 1) * hasher.blockSize ≤ right.length ∧
        left.take ((i + 1) * hasher.blockSize) = right.take ((i + 1) * hasher.blockSize) := by
  rw [← Nat.le_div_iff_mul_le hasher.positive, ← Nat.le_div_iff_mul_le hasher.positive]
  constructor
  · rintro ⟨key, foundL, foundR⟩
    have insideL := (List.getElem?_eq_some_iff.mp foundL).1
    have insideR := (List.getElem?_eq_some_iff.mp foundR).1
    rw [length_keyChain] at insideL insideR
    have agree := (keysFrom_eq_iff free i none none _ _ (fun input member => Or.inl member)
      (fun input member => Or.inr member)
      (by simpa using insideL) (by simpa using insideR)).mp (foundL.trans foundR.symm)
    exact ⟨insideL, insideR, (take_chunksExact_eq_iff insideL insideR).mp agree.2⟩
  · rintro ⟨insideL, insideR, agree⟩
    have same := (keysFrom_eq_iff free i none none _ _ (fun input member => Or.inl member)
      (fun input member => Or.inr member)
      (by simpa using insideL) (by simpa using insideR)).mpr
        ⟨rfl, (take_chunksExact_eq_iff insideL insideR).mpr agree⟩
    have found : (hasher.keyChain xxh3 left)[i]? = some _ :=
      List.getElem?_eq_getElem (by rw [length_keyChain]; exact insideL)
    exact ⟨_, found, same.symm.trans found⟩

/-- The chunks of a chain are whole blocks, so each of its inputs is canonical. -/
theorem inputsFrom_canonical (parent : Option VllmHash) (chunks : List (List Token))
    (whole : ∀ chunk ∈ chunks, chunk.length = hasher.blockSize) {input : List UInt8}
    (member : input ∈ hasher.inputsFrom xxh3 parent chunks) : ∃ before, ∃ chunk ∈ chunks,
      input = blockInput before chunk ∧ Canonical (blockItem before chunk) input := by
  induction chunks generalizing parent with
  | nil => cases member
  | cons chunk chunks ih =>
    rcases List.mem_cons.mp member with same | later
    · have word : chunk.length < 2 ^ 64 := by
        rw [whole chunk List.mem_cons_self]
        exact hasher.word
      exact ⟨_, chunk, List.mem_cons_self, same, same ▸ blockInput_canonical word⟩
    · obtain ⟨before, found, inside, facts⟩ :=
        ih _ (fun chunk inside => whole chunk (List.mem_cons_of_mem _ inside)) later
      exact ⟨before, found, List.mem_cons_of_mem _ inside, facts⟩

end VllmBlockHasher

/-- The GPU hit is a leading part of the whole blocks and the reuse cap leaves the last token
out, so the window is inside the chain. -/
theorem compatQueryHashes_isSome {H : Type} [DecidableEq H] [SequenceHashing H] (pool : BlockPool H)
    (salt : Option SaltHash)
    (promptTokens : List Token) (size : pool.blockSize = hasher.blockSize) :
    ∃ keys, compatQueryHashes xxh3 hasher (pool.probePrefix promptTokens salt).2 promptTokens = some keys ∧
      keys.length = cpuQueryWindow (pool.probePrefix promptTokens salt).2 := by
  have hit : (pool.store.matchBlocks (sequenceHashes pool.blockSize salt promptTokens)).2.length ≤
      promptTokens.length / pool.blockSize := by
    have names := congrArg List.length
      (BlockStore.matchBlocks_hashes (sequenceHashes pool.blockSize salt promptTokens) pool.store).1
    rw [List.length_map, List.length_take, sequenceHashes_length] at names
    omega
  have capped : (promptTokens.length - 1) / pool.blockSize ≤ promptTokens.length / pool.blockSize :=
    Nat.div_le_div_right (Nat.sub_le _ _)
  have inside : (pool.probePrefix promptTokens salt).2.gpuHit +
    cpuQueryWindow (pool.probePrefix promptTokens salt).2 ≤
      (hasher.keyChain xxh3 promptTokens).length := by
    rw [VllmBlockHasher.length_keyChain, ← size]
    dsimp only [BlockPool.probePrefix, cpuQueryWindow]
    omega
  refine ⟨_, if_pos inside, ?_⟩
  rw [List.length_take, List.length_drop]
  omega

/-- The bytes of a block say `(parent, token ids, null)` and nothing shorter does; two chains
share a key exactly as far as their tokens agree; and the prefetch window lies inside the chain. -/
theorem VllmBlockHasher.key_chain_agreement {seed : String} {blockSize : UInt64}
    (made : VllmBlockHasher.new xxh3 seed blockSize = some hasher) :
    (∀ tokenIds, ∀ input ∈ hasher.hashedInputs xxh3 tokenIds, ∃ parent chunk, chunk.length = blockSize.toNat ∧
      input = blockInput parent chunk ∧ Canonical (blockItem parent chunk) input) ∧
    (∀ parent tokenIds, tokenIds.length < 2 ^ 64 →
      Canonical (blockItem parent tokenIds) (blockInput parent tokenIds)) ∧
    Function.Injective2 blockInput ∧
    (∀ left right, Set.InjOn xxh3 {input | input ∈ hasher.hashedInputs xxh3 left ∨
      input ∈ hasher.hashedInputs xxh3 right} →
      ∀ i, (∃ key, (hasher.keyChain xxh3 left)[i]? = some key ∧ (hasher.keyChain xxh3 right)[i]? = some key) ↔
        (i + 1) * blockSize.toNat ≤ left.length ∧ (i + 1) * blockSize.toNat ≤ right.length ∧
          left.take ((i + 1) * blockSize.toNat) = right.take ((i + 1) * blockSize.toNat)) ∧
    ∀ (H : Type) [DecidableEq H] [SequenceHashing H] (pool : BlockPool H) (salt : Option
      SaltHash) (promptTokens : List Token),
      pool.blockSize = blockSize.toNat →
        ∃ keys, compatQueryHashes xxh3 hasher (pool.probePrefix promptTokens salt).2 promptTokens =
          some keys ∧
          keys.length = cpuQueryWindow (pool.probePrefix promptTokens salt).2 := by
  have size : hasher.blockSize = blockSize.toNat := by
    unfold VllmBlockHasher.new at made
    dsimp only at made
    split at made
    · cases made
      rfl
    · cases made
  rw [← size]
  refine ⟨fun tokenIds input member => ?_, fun parent tokenIds word => blockInput_canonical word,
    blockInput_injective,
    fun left right free i => keyChain_eq_iff free i, fun H _ _ pool salt promptTokens same =>
      compatQueryHashes_isSome pool salt promptTokens same⟩
  obtain ⟨parent, chunk, inside, same, canonical⟩ :=
    inputsFrom_canonical none _ (fun chunk inside => length_of_mem_chunksExact inside) member
  exact ⟨parent, chunk, length_of_mem_chunksExact inside, same, canonical⟩

/-- The digests the golden tests were captured with. -/
def goldenXxh3 (input : List UInt8) : VllmHash :=
  if input = [0x61, 0x30] then
    ⟨[0x1e, 0xbe, 0x36, 0x57, 0x6d, 0xcb, 0x57, 0x3f, 0x26, 0xb9, 0x95, 0x33, 0xa2, 0x0a, 0xae, 0xca], rfl⟩
  else if input = [0x83, 0x50, 0x1e, 0xbe, 0x36, 0x57, 0x6d, 0xcb, 0x57, 0x3f, 0x26, 0xb9, 0x95,
    0x33, 0xa2, 0x0a, 0xae, 0xca,
      0x84, 0x01, 0x02, 0x03, 0x04, 0xf6] then
    ⟨[0x0a, 0x85, 0x77, 0xdf, 0x5e, 0xe3, 0x43, 0x05, 0x15, 0xa8, 0xcc, 0x1f, 0x6e, 0x3a, 0xc5, 0x2e], rfl⟩
  else if input = [0x83, 0x50, 0x0a, 0x85, 0x77, 0xdf, 0x5e, 0xe3, 0x43, 0x05, 0x15, 0xa8, 0xcc,
    0x1f, 0x6e, 0x3a, 0xc5, 0x2e,
      0x84, 0x05, 0x06, 0x07, 0x08, 0xf6] then
    ⟨[0xd1, 0x52, 0x78, 0x2c, 0xb4, 0xd7, 0x53, 0xbd, 0xe7, 0x18, 0xa8, 0x11, 0xa3, 0xb7, 0x5e, 0x23], rfl⟩
  else ⟨List.replicate 16 0, rfl⟩

/-- Ten tokens and their first eight share both keys of the chain. -/
theorem VllmBlockHasher.key_chain_agreement_golden :
    ∃ hasher, VllmBlockHasher.new goldenXxh3 "0" 4 = some hasher ∧
    (hasher.keyChain goldenXxh3 [1, 2, 3, 4, 5, 6, 7, 8]).length = 2 ∧
    ∃ key, (hasher.keyChain goldenXxh3 [1, 2, 3, 4, 5, 6, 7, 8, 9, 10])[1]? = some key ∧
      (hasher.keyChain goldenXxh3 [1, 2, 3, 4, 5, 6, 7, 8])[1]? = some key := by
  have made : ∃ hasher, VllmBlockHasher.new goldenXxh3 "0" 4 = some hasher ∧ hasher.blockSize = 4 ∧
      hasher.hashedInputs goldenXxh3 [1, 2, 3, 4, 5, 6, 7, 8, 9, 10] =
        hasher.hashedInputs goldenXxh3 [1, 2, 3, 4, 5, 6, 7, 8] ∧
      ∀ input ∈ hasher.hashedInputs goldenXxh3 [1, 2, 3, 4, 5, 6, 7, 8],
        ∀ other ∈ hasher.hashedInputs goldenXxh3 [1, 2, 3, 4, 5, 6, 7, 8], goldenXxh3 input =
          goldenXxh3 other → input = other :=
    ⟨_, rfl, rfl, by decide +kernel, by decide +kernel⟩
  obtain ⟨hasher, made, size, same, apart⟩ := made
  obtain ⟨-, -, -, agree, -⟩ := VllmBlockHasher.key_chain_agreement made
  refine ⟨hasher, made, by rw [length_keyChain, size]; rfl,
    (agree _ _ ?_ 1).mpr ⟨by decide, by decide, by decide⟩⟩
  rw [same]
  simp only [or_self]
  exact fun input member other member' => apart input member other member'

end PegaInfer.Offload
