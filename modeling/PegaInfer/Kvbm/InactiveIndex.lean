import PegaInfer.Kvbm.LineageOk
import PegaInfer.Lib.LabelledRun

namespace PegaInfer.Kvbm

open Function

/-- The operations of `InactiveIndex` that change it. -/
inductive IndexOp (H : Type)
  | insert (hash : H) (id : BlockId)
  | findMatches (hashes : List H)
  | findMatch (hash : H)
  | scanMatches (hashes : List H)
  | allocate (count : Nat)
  | take (hash : H) (id : BlockId)

/-- The blocks an inactive index is asked to keep, without the means of keeping them. -/
abbrev Inactive (H : Type) := List (H × BlockId)

namespace Inactive

variable {H : Type} [DecidableEq H]

def lookup (blocks : Inactive H) (hash : H) : Option (H × BlockId) := blocks.find? fun block => block.1 = hash

def without (blocks : Inactive H) (hash : H) : Inactive H := blocks.filter fun block => block.1 ≠ hash

def findMatches (blocks : Inactive H) : List H → Inactive H × List (H × BlockId)
  | [] => (blocks, [])
  | hash :: hashes =>
    match blocks.lookup hash with
    | none => (blocks, [])
    | some block =>
      let (rest, found) := findMatches (blocks.without hash) hashes
      (rest, block :: found)

def scanMatches (blocks : Inactive H) : List H → Inactive H × List (H × BlockId)
  | [] => (blocks, [])
  | hash :: hashes =>
    let (rest, found) := scanMatches (blocks.without hash) hashes
    (rest, (blocks.lookup hash).toList ++ found)

theorem without_of_lookup {blocks : Inactive H} {hash : H} (absent : blocks.lookup hash = none) :
    blocks.without hash = blocks :=
  List.filter_eq_self.mpr fun block inside => by simpa using List.find?_eq_none.mp absent block inside

variable [LineageHash H]

/-- What an inactive index is for. Which blocks `allocate` gives up is the index's choice, how
many is not. -/
inductive Serves : Inactive H → IndexOp H × List (H × BlockId) → Inactive H → Prop
  | insert {blocks : Inactive H} {hash : H} {id : BlockId}
      (vacant : ∀ block ∈ blocks, LineageHash.key block.1 ≠ LineageHash.key hash) :
      Serves blocks (.insert hash id, []) (blocks ++ [(hash, id)])
  | findMatches {blocks : Inactive H} (hashes : List H) :
      Serves blocks (.findMatches hashes, (blocks.findMatches hashes).2) (blocks.findMatches hashes).1
  | findMatch {blocks : Inactive H} (hash : H) :
      Serves blocks (.findMatch hash, (blocks.lookup hash).toList) (blocks.without hash)
  | scanMatches {blocks : Inactive H} (hashes : List H) :
      Serves blocks (.scanMatches hashes, (blocks.scanMatches hashes).2) (blocks.scanMatches hashes).1
  | allocate {blocks rest : Inactive H} {evicted : List (H × BlockId)} {count : Nat}
      (perm : (evicted ++ rest).Perm blocks)
      (many : evicted.length = min count blocks.length) : Serves blocks (.allocate count, evicted) rest
  | taken {blocks : Inactive H} {hash : H} {id : BlockId} (stored : (hash, id) ∈ blocks) :
      Serves blocks (.take hash id, [(hash, id)]) (blocks.without hash)
  | missed {blocks : Inactive H} {hash : H} {id : BlockId} (absent : (hash, id) ∉ blocks) :
      Serves blocks (.take hash id, []) blocks

end Inactive

namespace LineageBackend

variable {H : Type} [LineageHash H] {backend after : LineageBackend H} {blocks : Inactive H}
  {idx : Nat} {id : BlockId} {hash : H}

/-- The backend keeps these blocks and no others. -/
structure Represents (backend : LineageBackend H) (blocks : Inactive H) : Prop where
  ok : ∃ layout order, backend.Ok layout order
  mem_iff : ∀ hash id, (hash, id) ∈ blocks ↔ ∃ idx, (backend.slots idx).data = .real id hash
  keys : (blocks.map fun block => LineageHash.key block.1).Nodup

theorem Graph.same_slot {layout : Layout} {other : Nat} {id' : BlockId} {hash' : H}
    (graph : backend.Graph layout)
    (data : (backend.slots idx).data = .real id hash) (data' : (backend.slots other).data = .real id' hash')
    (key : LineageHash.key hash = LineageHash.key hash') : idx = other := by
  have first := (graph.indexed _ idx).mpr ⟨(Real.of_data data).live, graph.keyed idx id hash data⟩
  have second := (graph.indexed _ other).mpr ⟨(Real.of_data data').live, graph.keyed other id' hash' data'⟩
  rw [← key, first, Option.some.injEq] at second
  exact second

theorem withPolicy_represents {leaves : LeafPolicy} (tracks : leaves.Tracks [] fun _ => False) :
    (withPolicy leaves : LineageBackend H).Represents [] := by
  have dead : ∀ idx, ¬ (withPolicy leaves : LineageBackend H).Real idx := fun idx => Bool.false_ne_true
  refine ⟨⟨⟨[], fun _ => []⟩, [], withPolicy_graph, fun idx id hash data => ?_, fun idx data => ?_,
    tracks.congr fun idx => ?_,
    fun idx => ?_, rfl⟩, fun hash id => ?_, .nil⟩
  · exact absurd (Real.of_data data) (dead idx)
  · cases data
  · exact iff_of_false (dead idx) id
  · exact iff_of_false List.not_mem_nil fun facts => dead idx facts.1
  · exact iff_of_false List.not_mem_nil fun ⟨idx, data⟩ => dead idx (Real.of_data data)

/-- The blocks in order of their slots' keys fill the real slots. -/
theorem Represents.count_eq (represents : backend.Represents blocks) : backend.len = blocks.length := by
  obtain ⟨layout, order, ok⟩ := represents.ok
  have slot : ∀ block ∈ blocks, ∃ idx, backend.index (LineageHash.key block.1) = some idx ∧
      (backend.slots idx).data = .real block.2 block.1 := by
    intro block inside
    obtain ⟨idx, data⟩ := (represents.mem_iff block.1 block.2).mp inside
    exact ⟨idx, (ok.graph.indexed _ idx).mpr ⟨(Real.of_data data).live, ok.graph.keyed idx _ _ data⟩, data⟩
  have distinct : (blocks.map fun block => backend.index (LineageHash.key block.1)).Nodup := by
    have mapped : ((blocks.map fun block => LineageHash.key block.1).map backend.index).Nodup := by
      refine (List.nodup_map_iff_inj_on represents.keys).mpr fun left inLeft right _ same => ?_
      obtain ⟨block, inside, rfl⟩ := List.mem_map.mp inLeft
      obtain ⟨idx, atIdx, _⟩ := slot block inside
      rw [atIdx] at same
      exact ((ok.graph.indexed _ idx).mp atIdx).2.symm.trans ((ok.graph.indexed _ idx).mp same.symm).2
    rwa [List.map_map] at mapped
  have split : (blocks.map fun block => backend.index (LineageHash.key block.1)).toFinset =
      backend.reals.map .some := by
    ext entry
    rw [List.mem_toFinset, List.mem_map, Finset.mem_map]
    constructor
    · rintro ⟨block, inside, rfl⟩
      obtain ⟨idx, atIdx, data⟩ := slot block inside
      exact ⟨idx, ok.graph.mem_reals.mpr (Real.of_data data), atIdx.symm⟩
    · rintro ⟨idx, inside, rfl⟩
      obtain ⟨id, hash, data⟩ := real_iff.mp (ok.graph.mem_reals.mp inside)
      refine ⟨(hash, id), (represents.mem_iff hash id).mpr ⟨idx, data⟩, ?_⟩
      exact (ok.graph.indexed _ idx).mpr ⟨(Real.of_data data).live, ok.graph.keyed idx id hash data⟩
  have card := congrArg Finset.card split
  rw [List.toFinset_card_of_nodup distinct, List.length_map, Finset.card_map] at card
  rw [len, ok.count_eq, card]

theorem Represents.occupied_iff (represents : backend.Represents blocks) {key : Nat × Nat} :
    backend.Occupied key ↔ ∃ block ∈ blocks, LineageHash.key block.1 = key := by
  constructor
  · rintro ⟨idx, id, hash, data, same⟩
    exact ⟨(hash, id), (represents.mem_iff hash id).mpr ⟨idx, data⟩, same⟩
  · rintro ⟨block, inside, same⟩
    obtain ⟨idx, data⟩ := (represents.mem_iff block.1 block.2).mp inside
    exact ⟨idx, block.2, block.1, data, same⟩

theorem Represents.insert (represents : backend.Represents blocks)
    (vacant : ∀ block ∈ blocks, LineageHash.key block.1 ≠ LineageHash.key hash) :
    ∃ after, backend.insert hash id = some after ∧ after.Represents (blocks ++ [(hash, id)]) := by
  obtain ⟨layout, order, ok⟩ := represents.ok
  have free : ¬ backend.Occupied (LineageHash.key hash) := by
    rw [represents.occupied_iff]
    rintro ⟨block, inside, same⟩
    exact vacant block inside same
  obtain ⟨after, wider, order', node, done, ok', adds, _⟩ := ok.insert id free
  refine ⟨after, done, ⟨wider, order', ok'⟩, fun hash' id' => ?_, ?_⟩
  · rw [List.mem_append, List.mem_singleton, represents.mem_iff, Prod.mk.injEq]
    constructor
    · rintro (⟨idx, data⟩ | ⟨rfl, rfl⟩)
      · exact ⟨idx, (adds.2 idx id' hash').mpr (Or.inl data)⟩
      · exact ⟨node, (adds.2 node id' hash').mpr (Or.inr ⟨rfl, rfl, rfl⟩)⟩
    · rintro ⟨idx, data⟩
      rcases (adds.2 idx id' hash').mp data with old | ⟨_, rfl, rfl⟩
      · exact Or.inl ⟨idx, old⟩
      · exact Or.inr ⟨rfl, rfl⟩
  · rw [List.map_append, List.nodup_append]
    refine ⟨represents.keys, by simp, fun key inside key' atEnd same => ?_⟩
    obtain ⟨block, member, rfl⟩ := List.mem_map.mp inside
    rw [List.map_singleton, List.mem_singleton] at atEnd
    exact vacant block member (same.trans atEnd)

theorem Represents.insert_none (represents : backend.Represents blocks)
    (occupied : ∃ block ∈ blocks, LineageHash.key block.1 = LineageHash.key hash) :
    backend.insert hash id = none := by
  obtain ⟨layout, order, ok⟩ := represents.ok
  exact ok.insert_occupied (represents.occupied_iff.mpr occupied)

section Remove

variable [DecidableEq H]

theorem stored_data (found : backend.stored hash = some (idx, id)) :
    (backend.slots idx).data = .real id hash := by
  unfold stored at found
  cases atKey : backend.index (LineageHash.key hash) with
  | none => simp [atKey] at found
  | some other =>
    simp only [atKey] at found
    cases data : (backend.slots other).data with
    | ghost => simp [data] at found
    | free => simp [data] at found
    | real id' hash' =>
      simp only [data] at found
      split_ifs at found with same
      cases found
      rw [data, same]

theorem Graph.stored_iff {layout : Layout} (graph : backend.Graph layout) :
    backend.stored hash = some (idx, id) ↔ (backend.slots idx).data = .real id hash := by
  refine ⟨stored_data, fun data => ?_⟩
  have atKey := (graph.indexed _ idx).mpr ⟨(Real.of_data data).live, graph.keyed idx id hash data⟩
  simp [stored, atKey, data]

/-- Taking one block out of its slot. -/
theorem Represents.removeNodeAt (represents : backend.Represents blocks)
    (data : (backend.slots idx).data = .real id hash) :
    ∃ after, backend.removeNodeAt idx = some (after, hash, id) ∧ after.Represents (blocks.without hash) := by
  obtain ⟨layout, order, ok⟩ := represents.ok
  obtain ⟨after, thinner, order', done, ok', removes, _⟩ := ok.removeNodeAt data
  refine ⟨after, done, ⟨thinner, order', ok'⟩, fun hash' id' => ?_,
    represents.keys.sublist (List.filter_sublist.map _)⟩
  rw [Inactive.without, List.mem_filter, represents.mem_iff, decide_eq_true_iff]
  constructor
  · rintro ⟨⟨other, data'⟩, ne⟩
    refine ⟨other, (removes other id' hash').mpr ⟨data', ?_⟩⟩
    rintro rfl
    rw [data, SlotData.real.injEq] at data'
    exact ne data'.2.symm
  · rintro ⟨other, data'⟩
    obtain ⟨old, ne⟩ := (removes other id' hash').mp data'
    refine ⟨⟨other, old⟩, ?_⟩
    rintro rfl
    exact ne (ok.graph.same_slot old data rfl)

theorem Represents.lookup_eq_none (represents : backend.Represents blocks)
    (absent : backend.stored hash = none) :
    blocks.lookup hash = none := by
  obtain ⟨layout, order, ok⟩ := represents.ok
  refine List.find?_eq_none.mpr fun block inside same => ?_
  rw [decide_eq_true_iff] at same
  obtain ⟨idx, data⟩ := (represents.mem_iff block.1 block.2).mp inside
  have found := ok.graph.stored_iff.mpr (same ▸ data)
  rw [absent] at found
  cases found

theorem Represents.lookup_eq_some (represents : backend.Represents blocks)
    (data : (backend.slots idx).data = .real id hash) :
    blocks.lookup hash = some (hash, id) := by
  obtain ⟨layout, order, ok⟩ := represents.ok
  have inside := (represents.mem_iff hash id).mpr ⟨idx, data⟩
  cases found : blocks.lookup hash with
  | none => exact absurd (List.find?_eq_none.mp found (hash, id) inside) (by simp)
  | some block =>
    have same := List.find?_some found
    rw [decide_eq_true_iff] at same
    obtain ⟨other, data'⟩ := (represents.mem_iff block.1 block.2).mp (List.mem_of_find?_eq_some found)
    have slot := ok.graph.same_slot data data' (by rw [same])
    rw [← slot, data, SlotData.real.injEq] at data'
    exact congrArg some (Prod.ext same data'.1.symm)

theorem Represents.removeByHash (represents : backend.Represents blocks) (hash : H) :
    ∃ after, backend.removeByHash hash = some (after, blocks.lookup hash) ∧
      after.Represents (blocks.without hash) := by
  obtain ⟨layout, order, ok⟩ := represents.ok
  unfold LineageBackend.removeByHash
  cases found : backend.stored hash with
  | none =>
    have absent := represents.lookup_eq_none found
    exact ⟨backend, by rw [absent], (Inactive.without_of_lookup absent).symm ▸ represents⟩
  | some entry =>
    obtain ⟨idx, id⟩ := entry
    have data := ok.graph.stored_iff.mp found
    obtain ⟨after, done, represents'⟩ := represents.removeNodeAt data
    exact ⟨after, by simp [done, represents.lookup_eq_some data], represents'⟩

theorem Represents.findMatches (represents : backend.Represents blocks) (hashes : List H) :
    ∃ after, backend.findMatches hashes = some (after, (blocks.findMatches hashes).2) ∧
      after.Represents (blocks.findMatches hashes).1 := by
  induction hashes generalizing backend blocks with
  | nil => exact ⟨backend, rfl, represents⟩
  | cons hash hashes ih =>
    obtain ⟨after, done, represents'⟩ := represents.removeByHash hash
    rw [LineageBackend.findMatches, done, Inactive.findMatches]
    cases found : blocks.lookup hash with
    | none =>
      rw [Inactive.without_of_lookup found] at represents'
      exact ⟨after, rfl, represents'⟩
    | some block =>
      obtain ⟨last, done', represents''⟩ := ih represents'
      exact ⟨last, by simp [done'], represents''⟩

theorem Represents.scanMatches (represents : backend.Represents blocks) (hashes : List H) :
    ∃ after, backend.scanMatches hashes = some (after, (blocks.scanMatches hashes).2) ∧
      after.Represents (blocks.scanMatches hashes).1 := by
  induction hashes generalizing backend blocks with
  | nil => exact ⟨backend, rfl, represents⟩
  | cons hash hashes ih =>
    obtain ⟨after, done, represents'⟩ := represents.removeByHash hash
    obtain ⟨last, done', represents''⟩ := ih represents'
    exact ⟨last, by simp [LineageBackend.scanMatches, Inactive.scanMatches, done, done'], represents''⟩

theorem Represents.take (represents : backend.Represents blocks) (hash : H) (id : BlockId) :
    if (hash, id) ∈ blocks then
      ∃ after, backend.take hash id = some (after, true) ∧ after.Represents (blocks.without hash)
    else backend.take hash id = some (backend, false) := by
  obtain ⟨layout, order, ok⟩ := represents.ok
  unfold LineageBackend.take
  split_ifs with stored
  · obtain ⟨idx, data⟩ := (represents.mem_iff hash id).mp stored
    obtain ⟨after, done, represents'⟩ := represents.removeByHash hash
    rw [represents.lookup_eq_some data] at done
    exact ⟨after, by simp [ok.graph.stored_iff.mpr data, done], represents'⟩
  · cases found : backend.stored hash with
    | none => rfl
    | some entry =>
      obtain ⟨idx, other⟩ := entry
      refine if_neg fun same => stored ((represents.mem_iff hash id).mpr ⟨idx, ?_⟩)
      exact ok.graph.stored_iff.mp (same ▸ found)

end Remove

/-- A node of the greatest position among those below `idx` has no child. -/
theorem Ok.exists_leaf_below {layout : Layout} {order : List Nat} (ok : backend.Ok layout order)
    (live : backend.Live idx) :
    ∃ leaf ∈ order, Relation.ReflTransGen (fun child parent =>
      (backend.slots child).parent = some parent) leaf idx := by
  classical
  let below := (Finset.range backend.size).filter fun node =>
    backend.Live node ∧ Relation.ReflTransGen
      (fun child parent => (backend.slots child).parent = some parent) node idx
  have inside : ∀ node, node ∈ below ↔ backend.Live node ∧
      Relation.ReflTransGen (fun child parent => (backend.slots child).parent = some parent) node idx := by
    intro node
    simp only [below, Finset.mem_filter, Finset.mem_range]
    exact and_iff_right_of_imp fun facts => ok.graph.bounded node facts.1
  obtain ⟨leaf, member, greatest⟩ := below.exists_max_image (fun node => (backend.slots node).position)
    ⟨idx, (inside idx).mpr ⟨live, .refl⟩⟩
  obtain ⟨liveLeaf, path⟩ := (inside leaf).mp member
  have bare : layout.children leaf = [] := by
    refine List.eq_nil_iff_forall_not_mem.mpr fun child isChild => ?_
    obtain ⟨liveChild, atParent⟩ := (ok.graph.child_iff leaf child liveLeaf).mp isChild
    have higher := greatest child ((inside child).mpr ⟨liveChild, .head atParent path⟩)
    have position := (ok.graph.above child leaf liveChild atParent).2
    omega
  refine ⟨leaf, (ok.order_iff leaf).mpr ⟨?_, bare⟩, path⟩
  cases data : (backend.slots leaf).data with
  | real id hash => exact Real.of_data data
  | ghost => exact absurd bare (ok.ghosts leaf data)
  | free => exact absurd data liveLeaf

theorem Represents.order_ne_nil {layout : Layout} {order : List Nat} (represents : backend.Represents blocks)
    (ok : backend.Ok layout order) (some_ : blocks ≠ []) : order ≠ [] := by
  obtain ⟨⟨hash, id⟩, inside⟩ := List.exists_mem_of_ne_nil blocks some_
  obtain ⟨idx, data⟩ := (represents.mem_iff hash id).mp inside
  obtain ⟨leaf, listed, _⟩ := ok.exists_leaf_below (Real.of_data data).live
  exact List.ne_nil_of_mem listed

theorem Represents.perm_without [DecidableEq H] (represents : backend.Represents blocks)
    (inside : (hash, id) ∈ blocks) :
    ((hash, id) :: blocks.without hash).Perm blocks := by
  obtain ⟨before, after, rfl⟩ := List.append_of_mem inside
  have keys := represents.keys
  have away : ∀ block ∈ before ++ after, block.1 ≠ hash := by
    intro block member same
    rw [List.map_append, List.map_cons, List.nodup_middle, List.nodup_cons, ← List.map_append] at keys
    exact keys.1 (List.mem_map.mpr ⟨block, member, by rw [same]⟩)
  have rest : Inactive.without (before ++ (hash, id) :: after) hash = before ++ after := by
    rw [Inactive.without, List.filter_append, List.filter_cons_of_neg (by simp)]
    rw [← List.filter_append]
    exact List.filter_eq_self.mpr fun block member => by simpa using away block member
  rw [rest]
  exact List.perm_middle.symm

theorem Represents.allocate [DecidableEq H] (represents : backend.Represents blocks) (count : Nat) :
    ∃ after evicted rest, backend.allocate count = some (after, evicted) ∧ after.Represents rest ∧
      (evicted ++ rest).Perm blocks ∧ evicted.length = min count blocks.length := by
  induction count generalizing backend blocks with
  | zero => exact ⟨backend, [], blocks, rfl, represents, List.Perm.refl _, by simp⟩
  | succ count ih =>
    obtain ⟨layout, order, ok⟩ := represents.ok
    cases victim : backend.leaves.nextVictim with
    | none =>
      have none_ : order = [] := by
        rw [ok.tracks.victim, List.head?_eq_none_iff] at victim
        exact victim
      have empty : blocks = [] := by
        by_contra some_
        exact represents.order_ne_nil ok some_ none_
      subst empty
      exact ⟨backend, [], [], by simp [LineageBackend.allocate, victim], represents,
        List.Perm.refl _, by simp⟩
    | some idx =>
      have listed : idx ∈ order := by
        rw [ok.tracks.victim] at victim
        exact List.mem_of_head? victim
      obtain ⟨id, hash, data⟩ := real_iff.mp ((ok.order_iff idx).mp listed).1
      obtain ⟨mid, done, represents'⟩ := represents.removeNodeAt data
      obtain ⟨after, evicted, rest, done', represents'', perm, many⟩ := ih represents'
      have first := represents.perm_without ((represents.mem_iff hash id).mpr ⟨idx, data⟩)
      refine ⟨after, (hash, id) :: evicted,
        rest, by simp [LineageBackend.allocate, victim, done, done'], represents'',
        (perm.cons (hash, id)).trans first, ?_⟩
      have length := first.length_eq
      rw [List.length_cons] at length ⊢
      omega

end LineageBackend

end PegaInfer.Kvbm
