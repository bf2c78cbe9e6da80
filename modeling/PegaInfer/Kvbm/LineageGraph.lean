import PegaInfer.Kvbm.Lineage

namespace PegaInfer.Kvbm.LineageBackend

open Function PegaInfer.Lib

variable {H : Type} {backend : LineageBackend H} {idx node parent cur : Nat} {slot : LineageSlot H}

def siblings (backend : LineageBackend H) (idx : Nat) : Option Nat := (backend.slots idx).nextSibling

def Live (backend : LineageBackend H) (idx : Nat) : Prop := (backend.slots idx).data ≠ .free

def Real (backend : LineageBackend H) (idx : Nat) : Prop := (backend.slots idx).isReal = true

@[simp] theorem slots_setSlot : (backend.setSlot idx slot).slots = update backend.slots idx slot := rfl

@[simp] theorem siblings_setSlot : (backend.setSlot idx slot).siblings =
    update backend.siblings idx slot.nextSibling := by
  funext other
  by_cases same : other = idx
  · simp [siblings, same]
  · simp [siblings, same]

/-- What the arena's links spell out: the free cells and each node's children. -/
structure Layout where
  free : List Nat
  children : Nat → List Nat

theorem siblings_of_slots {after : LineageBackend H} (same : after.slots = update backend.slots idx slot) :
    after.siblings = update backend.siblings idx slot.nextSibling := by
  funext other
  by_cases at_ : other = idx
  · simp [siblings, same, at_]
  · simp [siblings, same, at_]

theorem allocSlot_slots (slot : LineageSlot H) :
    (backend.allocSlot slot).1.slots = update backend.slots (backend.allocSlot slot).2 slot := by
  unfold LineageBackend.allocSlot
  split <;> rfl

theorem allocSlot_kept (slot : LineageSlot H) :
    (backend.allocSlot slot).1.index = backend.index ∧ (backend.allocSlot slot).1.leaves = backend.leaves ∧
      (backend.allocSlot slot).1.count = backend.count := by
  unfold LineageBackend.allocSlot
  split <;> exact ⟨rfl, rfl, rfl⟩

variable {data : SlotData H} {key : Nat × Nat}

theorem addNode_slots :
    (backend.addNode data key).1.slots =
      update backend.slots (backend.addNode data key).2 (.unlinked data key) :=
  allocSlot_slots _

theorem addNode_leaves : (backend.addNode data key).1.leaves = backend.leaves := (allocSlot_kept _).2.1

theorem addNode_count : (backend.addNode data key).1.count = backend.count := (allocSlot_kept _).2.2

theorem addNode_index :
    (backend.addNode data key).1.index = update backend.index key (some (backend.addNode data key).2) := by
  change update (backend.allocSlot _).1.index key _ = _
  rw [(allocSlot_kept _).1]
  rfl

theorem addNode_live_iff (used : data ≠ .free) {other : Nat} :
    (backend.addNode data key).1.Live other ↔ backend.Live other ∨ other = (backend.addNode data key).2 := by
  rw [Live, addNode_slots]
  by_cases same : other = (backend.addNode data key).2
  · simp [same, LineageSlot.unlinked, used]
  · simp [same, Live]

theorem linkChild_kept (idx : Nat) :
    ((backend.linkChild node parent).slots idx).data = (backend.slots idx).data ∧
      ((backend.linkChild node parent).slots idx).position = (backend.slots idx).position ∧
      ((backend.linkChild node parent).slots idx).key = (backend.slots idx).key := by
  simp only [linkChild, slots_setSlot]
  by_cases atParent : idx = parent
  · subst atParent
    by_cases atNode : idx = node
    · simp [atNode, LineageSlot.key]
    · simp [atNode, LineageSlot.key]
  · by_cases atNode : idx = node
    · subst atNode
      simp [atParent, LineageSlot.key]
    · simp [atParent, atNode]

theorem linkChild_live_iff : (backend.linkChild node parent).Live idx ↔ backend.Live idx := by
  rw [Live, Live, (linkChild_kept idx).1]

theorem linkChild_parent (apart : node ≠ parent) :
    ((backend.linkChild node parent).slots idx).parent = if idx = node then some parent
      else (backend.slots idx).parent := by
  simp only [linkChild, slots_setSlot]
  by_cases atParent : idx = parent
  · subst atParent
    simp [apart.symm]
  · by_cases atNode : idx = node
    · simp [atNode, apart]
    · simp [atParent, atNode]

theorem linkChild_firstChild (apart : node ≠ parent) :
    ((backend.linkChild node parent).slots idx).firstChild =
      if idx = parent then some node else (backend.slots idx).firstChild := by
  simp only [linkChild, slots_setSlot]
  by_cases atParent : idx = parent
  · simp [atParent]
  · by_cases atNode : idx = node
    · simp [atNode, apart]
    · simp [atNode, atParent]

theorem linkChild_siblings (apart : node ≠ parent) :
    (backend.linkChild node parent).siblings =
      update backend.siblings node (backend.slots parent).firstChild := by
  simp only [linkChild, siblings_setSlot, slots_setSlot, update_of_ne apart.symm]
  refine update_eq_self_iff.mpr ?_
  simp [update_of_ne apart.symm, siblings]

/-- The walk along the siblings finds the node before `child` and cuts `child` out. -/
theorem detachAfter_eq {before after : List Nat} {head : Option Nat} {pred child fuel : Nat}
    (chain : Chain backend.siblings head (before ++ pred :: child :: after)) (enough : before.length < fuel) :
    backend.detachAfter child fuel head =
      some (backend.setSlot pred
        { backend.slots pred with nextSibling := (backend.slots child).nextSibling }) := by
  induction before generalizing head fuel with
  | nil =>
    obtain ⟨fuel, rfl⟩ := Nat.exists_eq_add_of_lt enough
    obtain rfl : head = some pred := chain.head_eq
    have next : (backend.slots pred).nextSibling = some child := chain.tail.head_eq
    simp [detachAfter, next]
  | cons first before ih =>
    obtain ⟨fuel, rfl⟩ := Nat.exists_eq_add_of_lt enough
    obtain rfl : head = some first := chain.head_eq
    have distinct := chain.tail.nodup
    have next : (backend.slots first).nextSibling = (before ++ pred :: child :: after).head? :=
      chain.tail.head_eq
    have other : (backend.slots first).nextSibling ≠ some child := by
      rw [next]
      cases before with
      | nil =>
        intro same
        rw [List.nil_append, List.head?_cons, Option.some.injEq] at same
        simp [same] at distinct
      | cons second before =>
        intro same
        rw [List.cons_append, List.head?_cons, Option.some.injEq] at same
        simp [same] at distinct
    rw [List.length_cons] at enough
    rw [show (first :: before).length + fuel + 1 =
      (before.length + fuel + 1) + 1 by rw [List.length_cons]; omega,
      detachAfter, if_neg other]
    exact ih chain.tail (by omega)

/-- Nothing but sibling and child links differ. -/
structure Relinked (backend after : LineageBackend H) : Prop where
  size : after.size = backend.size
  freeHead : after.freeHead = backend.freeHead
  index : after.index = backend.index
  leaves : after.leaves = backend.leaves
  count : after.count = backend.count
  slot : ∀ idx, (after.slots idx).data = (backend.slots idx).data ∧
    (after.slots idx).position = (backend.slots idx).position ∧
    (after.slots idx).key = (backend.slots idx).key ∧ (after.slots idx).parent = (backend.slots idx).parent

theorem Relinked.refl : Relinked backend backend := ⟨rfl, rfl, rfl, rfl, rfl, fun _ => ⟨rfl, rfl, rfl, rfl⟩⟩

theorem relinked_setSlot {first sibling : Option Nat} :
    Relinked backend (backend.setSlot idx
      { backend.slots idx with firstChild := first, nextSibling := sibling }) := by
  refine ⟨rfl, rfl, rfl, rfl, rfl, fun other => ?_⟩
  by_cases same : other = idx
  · simp [same, LineageSlot.key]
  · simp [same]

variable [LineageHash H] {layout : Layout}

/-- The arena, its free list, the index and the child lists agree with the layout. -/
structure Graph (backend : LineageBackend H) (layout : Layout) : Prop where
  bounded : ∀ idx, backend.Live idx → idx < backend.size
  freeChain : Chain backend.siblings backend.freeHead layout.free
  free_iff : ∀ idx, idx ∈ layout.free ↔ idx < backend.size ∧ ¬ backend.Live idx
  indexed : ∀ key idx, backend.index key = some idx ↔ backend.Live idx ∧ (backend.slots idx).key = key
  childChain : ∀ idx, backend.Live idx →
    Chain backend.siblings (backend.slots idx).firstChild (layout.children idx)
  child_iff : ∀ parent child, backend.Live parent →
    (child ∈ layout.children parent ↔ backend.Live child ∧ (backend.slots child).parent = some parent)
  above : ∀ child parent, backend.Live child → (backend.slots child).parent = some parent →
    backend.Live parent ∧ (backend.slots child).position = (backend.slots parent).position + 1
  keyed : ∀ idx id hash, (backend.slots idx).data = .real id hash →
    (backend.slots idx).key = LineageHash.key hash

theorem withPolicy_graph {leaves : LeafPolicy} :
    (withPolicy leaves : LineageBackend H).Graph ⟨[], fun _ => []⟩ := by
  have dead : ∀ idx, ¬ (withPolicy leaves : LineageBackend H).Live idx := fun idx live => live rfl
  refine ⟨fun idx live => absurd live (dead idx), .nil, fun idx => ?_, fun key idx => ?_,
    fun idx live => absurd live (dead idx),
    fun parent child live => absurd live (dead parent), fun child parent live => absurd live (dead child),
    fun idx id hash data => ?_⟩
  · simp [withPolicy]
  · simp [withPolicy, Live, LineageSlot.unlinked]
  · simp [withPolicy, LineageSlot.unlinked] at data

theorem Graph.notMem_children {child : Nat} (graph : backend.Graph layout) (live : backend.Live parent)
    (dead : ¬ backend.Live child) : child ∉ layout.children parent :=
  fun inside => dead ((graph.child_iff parent child live).mp inside).1

/-- A cell that `alloc_slot` hands out was not in use. -/
theorem Graph.allocSlot (graph : backend.Graph layout) (slot : LineageSlot H) :
    ¬ backend.Live (backend.allocSlot slot).2 ∧
      (∀ other, other < (backend.allocSlot slot).1.size ↔
        other < backend.size ∨ other = (backend.allocSlot slot).2) ∧
      ∃ free, Chain (backend.allocSlot slot).1.siblings (backend.allocSlot slot).1.freeHead free ∧
        ∀ other, other ∈ free ↔ other ∈ layout.free ∧ other ≠ (backend.allocSlot slot).2 := by
  unfold LineageBackend.allocSlot
  cases head : backend.freeHead with
  | none =>
    have empty : layout.free = [] := by
      have start := graph.freeChain.head_eq
      rw [head] at start
      exact List.head?_eq_none_iff.mp start.symm
    refine ⟨fun live => absurd (graph.bounded _ live) (lt_irrefl _), fun other => ?_, [], ?_, by simp [empty]⟩
    · exact Nat.lt_succ_iff_lt_or_eq
    · simp only [setSlot, head]
      exact .nil
  | some idx =>
    obtain ⟨rest, free⟩ : ∃ rest, layout.free = idx :: rest := by
      have start := graph.freeChain.head_eq
      rw [head] at start
      exact List.head?_eq_some_iff.mp start.symm
    have chain := graph.freeChain
    rw [free] at chain
    have outside := (List.nodup_cons.mp chain.nodup).1
    have spare := (graph.free_iff idx).mp (by simp [free])
    refine ⟨spare.2, fun other => ?_, rest, ?_, fun other => ?_⟩
    · exact ⟨Or.inl, fun either => either.elim id fun same => same ▸ spare.1⟩
    · have kept : Chain (update backend.siblings idx slot.nextSibling) (backend.siblings idx) rest :=
        chain.tail.update_of_notMem outside
      rwa [← siblings_setSlot] at kept
    · rw [free, List.mem_cons]
      constructor
      · exact fun inside => ⟨Or.inr inside, ne_of_mem_of_not_mem inside outside⟩
      · rintro ⟨rfl | inside, apart⟩
        · exact absurd rfl apart
        · exact inside

theorem Graph.addNode_fresh (graph : backend.Graph layout) : ¬ backend.Live (backend.addNode data key).2 :=
  (graph.allocSlot _).1

theorem Graph.addNode (graph : backend.Graph layout) (vacant : backend.index key = none) (used : data ≠ .free)
    (keyed : ∀ id hash, data = .real id hash → key = LineageHash.key hash) :
    ∃ free, (backend.addNode data key).1.Graph
      ⟨free, update layout.children (backend.addNode data key).2 []⟩ := by
  obtain ⟨fresh, bound, free, chain, members⟩ := graph.allocSlot (.unlinked data key)
  have slots := @addNode_slots H backend data key
  have index := @addNode_index H backend data key
  have live_iff := fun other => @addNode_live_iff H backend data key used other
  change ¬ backend.Live (backend.addNode data key).2 at fresh
  change ∀ other, other < (backend.addNode data key).1.size ↔
    _ ∨ other = (backend.addNode data key).2 at bound
  change ∀ other, other ∈ free ↔ _ ∧ other ≠ (backend.addNode data key).2 at members
  change Chain (backend.addNode data key).1.siblings (backend.addNode data key).1.freeHead free at chain
  generalize backend.addNode data key = added at *
  obtain ⟨after, idx⟩ := added
  dsimp only at *
  have apart : ∀ other, backend.Live other → other ≠ idx := fun other live same => fresh (same ▸ live)
  have others : ∀ other, other ≠ idx → after.slots other = backend.slots other :=
    fun other ne => by rw [slots, update_of_ne ne]
  have self : after.slots idx = .unlinked data key := by rw [slots, update_self]
  refine ⟨free, fun other live => ?_, chain, fun other => ?_, fun key' other => ?_, fun other live => ?_,
    fun parent child live => ?_, fun child parent live atParent => ?_, fun other id hash atData => ?_⟩
  · exact (bound other).mpr (((live_iff other).mp live).imp_left (graph.bounded other))
  · rw [members, bound, live_iff, graph.free_iff]
    have := apart other
    tauto
  · rw [live_iff, index]
    by_cases same : key' = key
    · subst same
      rw [update_self, Option.some.injEq]
      constructor
      · rintro rfl
        exact ⟨Or.inr rfl, by rw [self]; rfl⟩
      · rintro ⟨old | new, atKey⟩
        · rw [others other (apart other old)] at atKey
          have clash := (graph.indexed key' other).mpr ⟨old, atKey⟩
          rw [vacant] at clash
          cases clash
        · exact new.symm
    · rw [update_of_ne same, graph.indexed]
      constructor
      · rintro ⟨old, atKey⟩
        exact ⟨Or.inl old, by rw [others other (apart other old), atKey]⟩
      · rintro ⟨old | rfl, atKey⟩
        · exact ⟨old, by rwa [others other (apart other old)] at atKey⟩
        · rw [self] at atKey
          exact absurd atKey.symm same
  · rw [siblings_of_slots slots]
    dsimp only
    rcases (live_iff other).mp live with old | rfl
    · have ne := apart other old
      rw [update_of_ne ne, others other ne]
      exact (graph.childChain other old).update_of_notMem (graph.notMem_children old fresh)
    · rw [update_self, self]
      exact .nil
  · rw [live_iff]
    dsimp only
    rcases (live_iff parent).mp live with old | rfl
    · rw [update_of_ne (apart parent old), graph.child_iff parent child old]
      by_cases same : child = idx
      · subst same
        simp [self, LineageSlot.unlinked, fresh]
      · simp [others child same, same]
    · rw [update_self]
      refine ⟨fun inside => absurd inside List.not_mem_nil, ?_⟩
      rintro ⟨old | rfl, atParent⟩
      · rw [others child (apart child old)] at atParent
        exact absurd (graph.above child parent old atParent).1 fresh
      · rw [self] at atParent
        cases atParent
  · rcases (live_iff child).mp live with old | rfl
    · rw [others child (apart child old)] at atParent ⊢
      obtain ⟨alive, position⟩ := graph.above child parent old atParent
      exact ⟨(live_iff parent).mpr (Or.inl alive), by rw [others parent (apart parent alive)]; exact position⟩
    · rw [self] at atParent
      cases atParent
  · by_cases same : other = idx
    · subst same
      rw [self] at atData ⊢
      exact keyed id hash atData
    · rw [others other same] at atData ⊢
      exact graph.keyed other id hash atData

/-- A node that hangs nowhere is put in front of the children of the node above it. -/
theorem Graph.linkChild (graph : backend.Graph layout) (live : backend.Live node)
    (liveParent : backend.Live parent)
    (orphan : (backend.slots node).parent = none)
    (below : (backend.slots node).position = (backend.slots parent).position + 1) :
    (backend.linkChild node parent).Graph
      { layout with children := update layout.children parent (node :: layout.children parent) } := by
  have apart : node ≠ parent := by
    rintro rfl
    omega
  have outside : ∀ other, backend.Live other → node ∉ layout.children other := by
    intro other alive inside
    have := ((graph.child_iff other node alive).mp inside).2
    rw [orphan] at this
    cases this
  have spare : node ∉ layout.free := fun inside => ((graph.free_iff node).mp inside).2 live
  refine ⟨fun other alive => ?_, ?_, fun other => ?_, fun key other => ?_, fun other alive => ?_,
    fun above child alive => ?_, fun child above alive atParent => ?_, fun other id hash atData => ?_⟩
  · exact graph.bounded other (linkChild_live_iff.mp alive)
  · rw [linkChild_siblings apart]
    exact graph.freeChain.update_of_notMem spare
  · rw [linkChild_live_iff]
    exact graph.free_iff other
  · rw [linkChild_live_iff, (linkChild_kept other).2.2]
    exact graph.indexed key other
  · have old := linkChild_live_iff.mp alive
    rw [linkChild_siblings apart, linkChild_firstChild apart]
    dsimp only
    split_ifs with same
    · subst same
      rw [update_self]
      exact (graph.childChain other old).push (outside other old)
    · rw [update_of_ne same]
      exact (graph.childChain other old).update_of_notMem (outside other old)
  · have old := linkChild_live_iff.mp alive
    rw [linkChild_live_iff, linkChild_parent apart]
    dsimp only
    by_cases atParent : above = parent
    · subst atParent
      rw [update_self, List.mem_cons, graph.child_iff above child old]
      by_cases atNode : child = node
      · simp [atNode, live]
      · simp [atNode]
    · rw [update_of_ne atParent, graph.child_iff above child old]
      by_cases atNode : child = node
      · simp [atNode, orphan, Ne.symm atParent]
      · simp [atNode]
  · have old := linkChild_live_iff.mp alive
    rw [linkChild_parent apart] at atParent
    rw [linkChild_live_iff, (linkChild_kept child).2.1, (linkChild_kept above).2.1]
    split_ifs at atParent with same
    · cases atParent
      exact ⟨liveParent, same ▸ below⟩
    · exact graph.above child above old atParent
  · rw [(linkChild_kept other).1] at atData
    rw [(linkChild_kept other).2.2]
    exact graph.keyed other id hash atData

theorem Graph.children_nodup (graph : backend.Graph layout) (live : backend.Live idx) :
    (layout.children idx).Nodup :=
  (graph.childChain idx live).nodup

theorem Graph.length_children (graph : backend.Graph layout) (live : backend.Live idx) :
    (layout.children idx).length ≤ backend.size := by
  have inside : layout.children idx ⊆ List.range backend.size := fun child member =>
    List.mem_range.mpr (graph.bounded child ((graph.child_iff idx child live).mp member).1)
  simpa using ((graph.children_nodup live).subperm inside).length_le

/-- `detach_child`: the children of `parent` lose `cur`, every other list is as before. -/
theorem Graph.detachChild (graph : backend.Graph layout) (live : backend.Live cur)
    (atParent : (backend.slots cur).parent = some parent) :
    ∃ after, backend.detachChild parent cur = some after ∧ Relinked backend after ∧
      Chain after.siblings after.freeHead layout.free ∧
      ∀ other, backend.Live other → Chain after.siblings (after.slots other).firstChild
        ((layout.children other).erase cur) := by
  have liveParent := (graph.above cur parent live atParent).1
  have member := (graph.child_iff parent cur liveParent).mpr ⟨live, atParent⟩
  have elsewhere : ∀ other, backend.Live other → other ≠ parent → cur ∉ layout.children other := by
    intro other alive ne inside
    have same := ((graph.child_iff other cur alive).mp inside).2
    rw [atParent, Option.some.injEq] at same
    exact ne same.symm
  have chain := graph.childChain parent liveParent
  have distinct := chain.nodup
  obtain ⟨before, after, split⟩ := List.append_of_mem member
  rcases List.eq_nil_or_concat before with rfl | ⟨front, pred, rfl⟩
  · rw [List.nil_append] at split
    rw [split] at chain
    have first : (backend.slots parent).firstChild = some cur := chain.head_eq
    refine ⟨_, by rw [LineageBackend.detachChild, if_pos first], relinked_setSlot, ?_, fun other alive => ?_⟩
    · rw [siblings_setSlot, show (LineageSlot.nextSibling _ : Option Nat) = backend.siblings parent
        from rfl, update_eq_self]
      exact graph.freeChain
    · rw [siblings_setSlot, show (LineageSlot.nextSibling _ : Option Nat) = backend.siblings parent
        from rfl, update_eq_self]
      by_cases same : other = parent
      · subst same
        simp only [slots_setSlot, update_self, split, List.erase_cons_head]
        exact chain.tail
      · simp only [slots_setSlot, update_of_ne same, List.erase_of_not_mem (elsewhere other alive same)]
        exact graph.childChain other alive
  · rw [List.concat_eq_append, List.append_assoc, List.singleton_append] at split
    rw [split] at chain distinct
    have first : (backend.slots parent).firstChild ≠ some cur := by
      rw [chain.head_eq]
      cases front with
      | nil =>
        intro same
        rw [List.nil_append, List.head?_cons, Option.some.injEq] at same
        simp [same] at distinct
      | cons b front =>
        intro same
        rw [List.cons_append, List.head?_cons, Option.some.injEq] at same
        simp [same] at distinct
    have short : front.length < backend.size + 1 := by
      have := graph.length_children liveParent
      rw [split, List.length_append, List.length_cons] at this
      omega
    have livePred : backend.Live pred := ((graph.child_iff parent pred liveParent).mp (by simp [split])).1
    have predSpare : pred ∉ layout.free := fun inside => ((graph.free_iff pred).mp inside).2 livePred
    have erased : (layout.children parent).erase cur = front ++ pred :: after := by
      have apart := List.disjoint_of_nodup_append distinct
      have outFront : cur ∉ front := fun inside => apart inside (by simp)
      have outPred : cur ≠ pred := fun same =>
        (List.nodup_cons.mp (List.nodup_append.mp distinct).2.1).1 (by simp [same])
      rw [split, List.erase_append_right _ outFront,
        List.erase_cons_tail (by simpa using outPred.symm), List.erase_cons_head]
    refine ⟨_, by rw [LineageBackend.detachChild, if_neg first, detachAfter_eq chain short],
      relinked_setSlot, ?_, fun other alive => ?_⟩
    · rw [siblings_setSlot]
      exact graph.freeChain.update_of_notMem predSpare
    · rw [siblings_setSlot]
      have firstKept : ((backend.setSlot pred
        { backend.slots pred with nextSibling := (backend.slots cur).nextSibling }).slots
          other).firstChild = (backend.slots other).firstChild := by
        by_cases same : other = pred
        · simp [same]
        · simp [same]
      rw [firstKept]
      by_cases same : other = parent
      · subst same
        rw [erased]
        exact chain.unlink
      · rw [List.erase_of_not_mem (elsewhere other alive same)]
        refine (graph.childChain other alive).update_of_notMem fun inside => ?_
        have atOther := ((graph.child_iff other pred alive).mp inside).2
        have atPred := ((graph.child_iff parent pred liveParent).mp (by simp [split])).2
        rw [atPred, Option.some.injEq] at atOther
        exact same atOther.symm

theorem Graph.detach (graph : backend.Graph layout) (live : backend.Live cur) :
    ∃ after, backend.detach cur = some after ∧ Relinked backend after ∧
      Chain after.siblings after.freeHead layout.free ∧
      ∀ other, backend.Live other → Chain after.siblings (after.slots other).firstChild
        ((layout.children other).erase cur) := by
  unfold LineageBackend.detach
  cases atParent : (backend.slots cur).parent with
  | some parent => exact graph.detachChild live atParent
  | none =>
    refine ⟨backend, rfl, .refl, graph.freeChain, fun idx alive => ?_⟩
    have outside : cur ∉ layout.children idx := by
      intro inside
      have orphan := ((graph.child_iff idx cur alive).mp inside).2
      rw [atParent] at orphan
      cases orphan
    rw [List.erase_of_not_mem outside]
    exact graph.childChain idx alive

/-- A childless node leaves the graph; the others keep their data and their parents. -/
theorem Graph.cutLeaf (graph : backend.Graph layout) (live : backend.Live cur)
    (bare : layout.children cur = []) :
    ∃ after, backend.cutLeaf cur = some after ∧
      after.Graph ⟨cur :: layout.free, fun idx => (layout.children idx).erase cur⟩ ∧
      after.leaves = backend.leaves ∧ after.count = backend.count ∧ after.size = backend.size ∧
      (∀ idx, after.Live idx ↔ backend.Live idx ∧ idx ≠ cur) ∧
      ∀ idx, idx ≠ cur → (after.slots idx).data = (backend.slots idx).data ∧
        (after.slots idx).key = (backend.slots idx).key ∧
        (after.slots idx).parent = (backend.slots idx).parent := by
  have spare : cur ∉ layout.free := fun inside => ((graph.free_iff cur).mp inside).2 live
  obtain ⟨mid, detached, same, freeChain, chains⟩ := graph.detach live
  obtain ⟨after, cut, size, index, leaves, count, head, slots⟩ : ∃ after, backend.cutLeaf cur = some after ∧
      after.size = backend.size ∧ after.index = update backend.index (backend.slots cur).key none ∧
      after.leaves = backend.leaves ∧ after.count = backend.count ∧ after.freeHead = some cur ∧
      after.slots = update mid.slots cur
        { mid.slots cur with data := .free, nextSibling := mid.freeHead } := by
    refine ⟨{ mid with index := update mid.index (backend.slots cur).key none }.freeSlot cur,
      by rw [LineageBackend.cutLeaf, detached]; rfl, same.size, ?_, same.leaves, same.count, rfl, rfl⟩
    change update mid.index _ none = _
    rw [same.index]
  have siblings := siblings_of_slots slots
  have others : ∀ idx, idx ≠ cur → after.slots idx = mid.slots idx :=
    fun idx ne => by rw [slots, update_of_ne ne]
  have live_iff : ∀ idx, after.Live idx ↔ backend.Live idx ∧ idx ≠ cur := by
    intro idx
    by_cases atCur : idx = cur
    · simp [Live, slots, atCur]
    · simp [Live, slots, atCur, (same.slot idx).1]
  refine ⟨after, cut, ⟨fun idx alive => ?_, ?_, fun idx => ?_, fun key idx => ?_,
    fun idx alive => ?_, fun parent child alive => ?_,
      fun child parent alive atParent => ?_, fun idx id hash atData => ?_⟩, leaves, count, size,
        live_iff, fun idx ne => ?_⟩
  · rw [size]
    exact graph.bounded idx ((live_iff idx).mp alive).1
  · rw [siblings, head]
    exact freeChain.push spare
  · rw [live_iff, List.mem_cons, graph.free_iff, size]
    have below := graph.bounded cur live
    by_cases atCur : idx = cur
    · simp [atCur, below]
    · simp [atCur]
  · rw [live_iff, index]
    by_cases atKey : key = (backend.slots cur).key
    · subst atKey
      rw [update_self]
      refine iff_of_false nofun ?_
      rintro ⟨⟨alive, ne⟩, sameKey⟩
      rw [others idx ne, (same.slot idx).2.2.1] at sameKey
      have first := (graph.indexed _ idx).mpr ⟨alive, sameKey⟩
      rw [(graph.indexed _ cur).mpr ⟨live, rfl⟩, Option.some.injEq] at first
      exact absurd first.symm ne
    · rw [update_of_ne atKey, graph.indexed]
      constructor
      · rintro ⟨alive, atIdx⟩
        have ne : idx ≠ cur := fun atCur => atKey (by rw [← atIdx, atCur])
        exact ⟨⟨alive, ne⟩, by rw [others idx ne, (same.slot idx).2.2.1, atIdx]⟩
      · rintro ⟨⟨alive, ne⟩, sameKey⟩
        exact ⟨alive, by rwa [others idx ne, (same.slot idx).2.2.1] at sameKey⟩
  · obtain ⟨old, ne⟩ := (live_iff idx).mp alive
    rw [siblings, others idx ne]
    exact (chains idx old).update_of_notMem (graph.children_nodup old).not_mem_erase
  · obtain ⟨old, ne⟩ := (live_iff parent).mp alive
    rw [live_iff, (graph.children_nodup old).mem_erase_iff, graph.child_iff parent child old]
    constructor
    · rintro ⟨apart, alive, atParent⟩
      exact ⟨⟨alive, apart⟩, by rw [others child apart, (same.slot child).2.2.2, atParent]⟩
    · rintro ⟨⟨alive, apart⟩, atParent⟩
      exact ⟨apart, alive, by rwa [others child apart, (same.slot child).2.2.2] at atParent⟩
  · obtain ⟨old, ne⟩ := (live_iff child).mp alive
    rw [others child ne, (same.slot child).2.2.2] at atParent
    obtain ⟨aliveParent, position⟩ := graph.above child parent old atParent
    have apart : parent ≠ cur := by
      rintro rfl
      have inside := (graph.child_iff parent child live).mpr ⟨old, atParent⟩
      simp [bare] at inside
    refine ⟨(live_iff parent).mpr ⟨aliveParent, apart⟩, ?_⟩
    rw [others child ne, others parent apart, (same.slot child).2.1, (same.slot parent).2.1, position]
  · have alive : after.Live idx := by
      rw [Live, atData]
      nofun
    obtain ⟨old, ne⟩ := (live_iff idx).mp alive
    rw [others idx ne, (same.slot idx).1] at atData
    rw [others idx ne, (same.slot idx).2.2.1]
    exact graph.keyed idx id hash atData
  · rw [others idx ne]
    exact ⟨(same.slot idx).1, (same.slot idx).2.2⟩

end PegaInfer.Kvbm.LineageBackend
