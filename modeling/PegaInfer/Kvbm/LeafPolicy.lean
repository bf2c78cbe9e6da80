import Mathlib.Data.List.Sort
import Mathlib.Data.Prod.Lex
import PegaInfer.Lib.Chain

namespace PegaInfer.Kvbm

open Function PegaInfer.Lib

abbrev FifoLink := Link Nat

/-- The intrusive list of the leaves. `links` beyond its end reads as `None`. -/
structure FifoPolicy where
  links : Nat → Option FifoLink
  head : Option Nat
  tail : Option Nat

namespace FifoPolicy

def empty : FifoPolicy := ⟨fun _ => none, none, none⟩

def onLeafAdded (policy : FifoPolicy) (idx : Nat) : Option FifoPolicy := do
  let links ← Link.setNext (update policy.links idx (some ⟨policy.tail, none⟩)) policy.tail (some idx)
  some { links, head := if policy.tail.isSome then policy.head else some idx, tail := some idx }

/-- Without effect on a slot that is not listed. -/
def unlink (policy : FifoPolicy) (idx : Nat) : Option FifoPolicy :=
  match policy.links idx with
  | none => some policy
  | some link => do
    let links ← Link.setNext (update policy.links idx none) link.prev link.next
    let links ← Link.setPrev links link.next link.prev
    some
      { links
        head := if link.prev.isSome then policy.head else link.next
        tail := if link.next.isSome then policy.tail else link.prev }

def nextVictim (policy : FifoPolicy) : Option Nat := policy.head

/-- The policy lists the leaves in this order. -/
structure Lists (policy : FifoPolicy) (order : List Nat) : Prop where
  threads : Link.Threads policy.links order
  head : policy.head = order.head?
  tail : policy.tail = order.getLast?

variable {policy : FifoPolicy} {order : List Nat} {idx : Nat}

theorem empty_lists : empty.Lists [] := ⟨.empty, rfl, rfl⟩

theorem Lists.onLeafAdded (lists : policy.Lists order) (fresh : idx ∉ order) :
    ∃ after, policy.onLeafAdded idx = some after ∧ after.Lists (order ++ [idx]) := by
  obtain ⟨links, set, threads⟩ := lists.threads.pushBack fresh
  rw [← lists.tail] at set
  refine ⟨_, by rw [FifoPolicy.onLeafAdded, set]; rfl, threads, ?_, by simp⟩
  rw [lists.head, lists.tail]
  cases order with
  | nil => rfl
  | cons first rest => simp

theorem Lists.unlink (lists : policy.Lists order) :
    ∃ after, policy.unlink idx = some after ∧ after.Lists (order.erase idx) := by
  by_cases listed : idx ∈ order
  · obtain ⟨before, after, rfl⟩ := List.append_of_mem listed
    obtain ⟨mid, links, first, second, threads⟩ := lists.threads.unlink
    have outside : idx ∉ before := fun inside =>
      List.disjoint_of_nodup_append lists.threads.distinct inside List.mem_cons_self
    rw [List.erase_append_right _ outside, List.erase_cons_head]
    refine ⟨_, by
      simp only [FifoPolicy.unlink, lists.threads.link, first, second, Option.bind_eq_bind,
        Option.bind_some]
      rfl, threads, ?_, ?_⟩
    · rw [lists.head]
      cases before with
      | nil => simp
      | cons b before => simp [List.getLast?_isSome]
    · rw [lists.tail]
      cases after with
      | nil => simp
      | cons c after => simp [List.getLast?_append]
  · rw [List.erase_of_not_mem listed]
    exact ⟨policy, by rw [FifoPolicy.unlink, lists.threads.absent idx listed], lists⟩

end FifoPolicy

/-- `ticks` beyond its end reads as `None`; `queue` is the `BTreeMap`'s keys in order. -/
structure TickPolicy where
  ticks : Nat → Option Nat
  queue : List (Nat ×ₗ Nat)
  nextTick : Nat

namespace TickPolicy

def empty : TickPolicy := ⟨fun _ => none, [], 0⟩

def onNodeInserted (policy : TickPolicy) (idx : Nat) : TickPolicy :=
  { policy with ticks := update policy.ticks idx (some policy.nextTick), nextTick := policy.nextTick + 1 }

def onLeafAdded (policy : TickPolicy) (idx : Nat) : Option TickPolicy := do
  let tick ← policy.ticks idx
  let key := toLex (tick, idx)
  some { policy with
    queue := if key ∈ policy.queue then policy.queue else policy.queue.orderedInsert (· ≤ ·) key }

def onLeafDemoted (policy : TickPolicy) (idx : Nat) : TickPolicy :=
  match policy.ticks idx with
  | none => policy
  | some tick => { policy with queue := policy.queue.erase (toLex (tick, idx)) }

def onNodeRemoved (policy : TickPolicy) (idx : Nat) : TickPolicy :=
  { policy.onLeafDemoted idx with ticks := update policy.ticks idx none }

def nextVictim (policy : TickPolicy) : Option Nat := policy.queue.head?.map fun key => (ofLex key).2

/-- The policy holds the ticks of the `live` slots and queues the slots of `order`. -/
structure Tracks (policy : TickPolicy) (order : List Nat) (live : Nat → Prop) : Prop where
  order_eq : order = policy.queue.map fun key => (ofLex key).2
  keyed : ∀ key ∈ policy.queue, policy.ticks (ofLex key).2 = some (ofLex key).1
  sorted : policy.queue.Pairwise (· ≤ ·)
  distinct : policy.queue.Nodup
  ticked : ∀ idx, live idx ↔ (policy.ticks idx).isSome
  fresh : ∀ idx tick, policy.ticks idx = some tick → tick < policy.nextTick

variable {policy : TickPolicy} {order : List Nat} {idx tick : Nat} {live : Nat → Prop}

theorem onLeafDemoted_ticks (policy : TickPolicy) {idx : Nat} :
    (policy.onLeafDemoted idx).ticks = policy.ticks := by
  unfold onLeafDemoted
  split <;> rfl

theorem empty_tracks : empty.Tracks [] fun _ => False :=
  ⟨rfl, by simp [empty], .nil, .nil, by simp [empty], by simp [empty]⟩

theorem Tracks.mem_order (tracks : policy.Tracks order live) :
    idx ∈ order ↔ ∃ tick, policy.ticks idx = some tick ∧ toLex (tick, idx) ∈ policy.queue := by
  rw [tracks.order_eq, List.mem_map]
  constructor
  · rintro ⟨key, queued, rfl⟩
    exact ⟨_, tracks.keyed key queued, queued⟩
  · rintro ⟨tick, _, queued⟩
    exact ⟨_, queued, rfl⟩

theorem Tracks.victim (tracks : policy.Tracks order live) : policy.nextVictim = order.head? := by
  rw [tracks.order_eq, nextVictim, List.head?_map]

theorem Tracks.onNodeInserted (tracks : policy.Tracks order live) (dead : ¬ live idx) :
    (policy.onNodeInserted idx).Tracks order fun other => live other ∨ other = idx where
  order_eq := tracks.order_eq
  keyed := by
    intro key queued
    have at_ := tracks.keyed key queued
    have apart : (ofLex key).2 ≠ idx := by
      rintro rfl
      exact dead ((tracks.ticked _).mpr (by simp [at_]))
    simpa only [TickPolicy.onNodeInserted, update_of_ne apart] using at_
  sorted := tracks.sorted
  distinct := tracks.distinct
  ticked := by
    intro other
    by_cases same : other = idx
    · simp [TickPolicy.onNodeInserted, same]
    · simp [TickPolicy.onNodeInserted, tracks.ticked, same]
  fresh := by
    intro other tick at_
    simp only [TickPolicy.onNodeInserted] at at_ ⊢
    by_cases same : other = idx
    · rw [same, update_self, Option.some.injEq] at at_
      omega
    · rw [update_of_ne same] at at_
      have := tracks.fresh other tick at_
      omega

theorem Tracks.onLeafAdded (tracks : policy.Tracks order live) (alive : live idx) (unlisted : idx ∉ order) :
    ∃ after order', policy.onLeafAdded idx = some after ∧ after.Tracks order' live ∧
      order'.Perm (idx :: order) ∧
      after.ticks = policy.ticks := by
  obtain ⟨tick, at_⟩ := Option.isSome_iff_exists.mp ((tracks.ticked idx).mp alive)
  have absent : toLex (tick, idx) ∉ policy.queue :=
    fun queued => unlisted (tracks.mem_order.mpr ⟨tick, at_, queued⟩)
  have perm := List.perm_orderedInsert (· ≤ ·) (toLex (tick, idx)) policy.queue
  refine ⟨{ policy with queue := policy.queue.orderedInsert (· ≤ ·) (toLex (tick, idx)) }, _,
    by simp [TickPolicy.onLeafAdded, at_, absent], ⟨rfl, ?_, ?_, ?_, tracks.ticked, tracks.fresh⟩, ?_, rfl⟩
  · intro key queued
    rcases List.mem_cons.mp (perm.mem_iff.mp queued) with rfl | old
    · exact at_
    · exact tracks.keyed key old
  · exact tracks.sorted.orderedInsert _ _
  · exact perm.nodup_iff.mpr (List.nodup_cons.mpr ⟨absent, tracks.distinct⟩)
  · rw [tracks.order_eq]
    exact perm.map _

theorem Tracks.key_eq_iff (tracks : policy.Tracks order live) (at_ : policy.ticks idx = some tick)
    {key : Nat ×ₗ Nat} (queued : key ∈ policy.queue) : (ofLex key).2 = idx ↔ key = toLex (tick, idx) := by
  constructor
  · intro same
    have keyed := tracks.keyed key queued
    rw [same, at_, Option.some.injEq] at keyed
    exact Prod.ext keyed.symm same
  · rintro rfl
    rfl

theorem Tracks.nodup (tracks : policy.Tracks order live) : order.Nodup := by
  rw [tracks.order_eq, List.nodup_map_iff_inj_on tracks.distinct]
  intro left inLeft right inRight same
  have leftKey := (tracks.key_eq_iff (tracks.keyed right inRight) inLeft).mp same
  exact leftKey

theorem Tracks.erase (tracks : policy.Tracks order live) (at_ : policy.ticks idx = some tick) :
    order.erase idx = (policy.queue.erase (toLex (tick, idx))).map fun key => (ofLex key).2 := by
  rw [tracks.nodup.erase_eq_filter, tracks.distinct.erase_eq_filter, tracks.order_eq, List.filter_map]
  refine congrArg _ (List.filter_congr fun key queued => ?_)
  have same := tracks.key_eq_iff at_ queued
  rw [Bool.eq_iff_iff]
  simp [same]

theorem Tracks.onLeafDemoted (tracks : policy.Tracks order live) :
    (policy.onLeafDemoted idx).Tracks (order.erase idx) live := by
  unfold TickPolicy.onLeafDemoted
  cases at_ : policy.ticks idx with
  | none =>
    have unlisted : idx ∉ order := by
      rw [tracks.mem_order]
      rintro ⟨tick, some_, _⟩
      simp [at_] at some_
    rw [List.erase_of_not_mem unlisted]
    exact tracks
  | some tick =>
    exact ⟨tracks.erase at_, fun key queued => tracks.keyed key (List.mem_of_mem_erase queued),
      tracks.sorted.erase _, tracks.distinct.erase _, tracks.ticked, tracks.fresh⟩

theorem Tracks.onNodeRemoved (tracks : policy.Tracks order live) :
    (policy.onNodeRemoved idx).Tracks (order.erase idx) fun other => live other ∧ other ≠ idx := by
  have demoted : (policy.onLeafDemoted idx).Tracks (order.erase idx) live := tracks.onLeafDemoted
  refine ⟨demoted.order_eq, fun key queued => ?_, demoted.sorted, demoted.distinct, fun other => ?_,
    fun other tick at_ => ?_⟩
  · have inside : (ofLex key).2 ∈ order.erase idx := by
      rw [demoted.order_eq]
      exact List.mem_map_of_mem queued
    have apart := (tracks.nodup.mem_erase_iff.mp inside).1
    simp only [TickPolicy.onNodeRemoved, update_of_ne apart]
    rw [← policy.onLeafDemoted_ticks]
    exact demoted.keyed key queued
  · by_cases same : other = idx
    · simp [TickPolicy.onNodeRemoved, same]
    · simp [TickPolicy.onNodeRemoved, tracks.ticked, same]
  · by_cases same : other = idx
    · simp [TickPolicy.onNodeRemoved, same] at at_
    · simp only [TickPolicy.onNodeRemoved, update_of_ne same] at at_ ⊢
      exact demoted.fresh other tick (policy.onLeafDemoted_ticks.symm ▸ at_)

/-- The victim has the least tick of the queued slots. -/
theorem Tracks.least (tracks : policy.Tracks (idx :: order) live) {other : Nat}
    (listed : other ∈ idx :: order) :
    ∃ tick otherTick, policy.ticks idx = some tick ∧ policy.ticks other = some otherTick ∧
      tick ≤ otherTick := by
  obtain ⟨otherTick, atOther, queued⟩ := tracks.mem_order.mp listed
  obtain ⟨key, rest, queue⟩ : ∃ key rest, policy.queue = key :: rest := by
    cases queue : policy.queue with
    | nil => simp [queue] at queued
    | cons key rest => exact ⟨key, rest, rfl⟩
  have atKey := tracks.keyed key (by simp [queue])
  have first : (ofLex key).2 = idx := by
    have := tracks.order_eq
    rw [queue, List.map_cons] at this
    exact (List.cons.inj this).1.symm
  refine ⟨_, otherTick, first ▸ atKey, atOther, ?_⟩
  have sorted := tracks.sorted
  rw [queue] at sorted queued
  rcases List.mem_cons.mp queued with same | later
  · rw [← same]
    exact le_rfl
  · exact (Prod.Lex.le_iff.mp ((List.pairwise_cons.mp sorted).1 _ later)).elim
      (fun less => less.le) fun tie => tie.1.le

end TickPolicy

/-- `LeafPolicy`: which leaf the lineage graph evicts first. -/
inductive LeafPolicy
  | fifo (policy : FifoPolicy)
  | tick (policy : TickPolicy)

namespace LeafPolicy

def onNodeInserted : LeafPolicy → Nat → LeafPolicy
  | fifo policy, _ => fifo policy
  | tick policy, idx => tick (policy.onNodeInserted idx)

def onLeafAdded : LeafPolicy → Nat → Option LeafPolicy
  | fifo policy, idx => (policy.onLeafAdded idx).map fifo
  | tick policy, idx => (policy.onLeafAdded idx).map tick

def onLeafDemoted : LeafPolicy → Nat → Option LeafPolicy
  | fifo policy, idx => (policy.unlink idx).map fifo
  | tick policy, idx => some (tick (policy.onLeafDemoted idx))

def onNodeRemoved : LeafPolicy → Nat → Option LeafPolicy
  | fifo policy, idx => (policy.unlink idx).map fifo
  | tick policy, idx => some (tick (policy.onNodeRemoved idx))

def nextVictim : LeafPolicy → Option Nat
  | fifo policy => policy.nextVictim
  | tick policy => policy.nextVictim

/-- The tick of a slot; the outer `none` is a policy that keeps no ticks. -/
def stamp : LeafPolicy → Nat → Option (Option Nat)
  | fifo _, _ => none
  | tick policy, idx => some (policy.ticks idx)

/-- The policy evicts the leaves in this order; the `live` slots are those of the blocks. -/
def Tracks : LeafPolicy → List Nat → (Nat → Prop) → Prop
  | fifo policy, order, _ => policy.Lists order
  | tick policy, order, live => policy.Tracks order live

variable {policy : LeafPolicy} {order : List Nat} {idx : Nat} {live : Nat → Prop}

theorem exists_tick_of_stamp (idx : Nat) (kept : policy.stamp idx ≠ none) : ∃ ticks, policy = tick ticks := by
  cases policy with
  | fifo policy => exact absurd rfl kept
  | tick policy => exact ⟨policy, rfl⟩

theorem Tracks.nodup (tracks : policy.Tracks order live) : order.Nodup := by
  cases policy with
  | fifo policy => exact FifoPolicy.Lists.threads tracks |>.distinct
  | tick policy => exact TickPolicy.Tracks.nodup tracks

theorem Tracks.victim (tracks : policy.Tracks order live) : policy.nextVictim = order.head? := by
  cases policy with
  | fifo policy => exact FifoPolicy.Lists.head tracks
  | tick policy => exact TickPolicy.Tracks.victim tracks

theorem Tracks.onNodeInserted (tracks : policy.Tracks order live) (dead : ¬ live idx) :
    (policy.onNodeInserted idx).Tracks order fun other => live other ∨ other = idx := by
  cases policy with
  | fifo policy => exact tracks
  | tick policy => exact TickPolicy.Tracks.onNodeInserted tracks dead

theorem Tracks.onLeafAdded (tracks : policy.Tracks order live) (alive : live idx) (unlisted : idx ∉ order) :
    ∃ after order', policy.onLeafAdded idx = some after ∧ after.Tracks order' live ∧
      order'.Perm (idx :: order) ∧
      after.stamp = policy.stamp := by
  cases policy with
  | fifo policy =>
    obtain ⟨after, added, lists⟩ := FifoPolicy.Lists.onLeafAdded tracks unlisted
    exact ⟨.fifo after, order ++ [idx], by simp [LeafPolicy.onLeafAdded, added], lists,
      List.perm_append_singleton idx order, rfl⟩
  | tick policy =>
    obtain ⟨after, order', added, kept, perm, ticks⟩ := TickPolicy.Tracks.onLeafAdded tracks alive unlisted
    exact ⟨.tick after, order', by simp [LeafPolicy.onLeafAdded, added], kept, perm,
      funext fun other => congrArg some (congrFun ticks other)⟩

theorem Tracks.onLeafDemoted (tracks : policy.Tracks order live) :
    ∃ after, policy.onLeafDemoted idx = some after ∧ after.Tracks (order.erase idx) live ∧
      after.stamp = policy.stamp := by
  cases policy with
  | fifo policy =>
    obtain ⟨after, removed, lists⟩ := FifoPolicy.Lists.unlink tracks
    exact ⟨.fifo after, by simp [LeafPolicy.onLeafDemoted, removed], lists, rfl⟩
  | tick policy =>
    exact ⟨_, rfl, TickPolicy.Tracks.onLeafDemoted tracks, funext fun other =>
      congrArg some (congrFun policy.onLeafDemoted_ticks other)⟩

theorem Tracks.onNodeRemoved (tracks : policy.Tracks order live) :
    ∃ after, policy.onNodeRemoved idx = some after ∧
      (after.Tracks (order.erase idx) fun other => live other ∧ other ≠ idx) ∧
      ∀ other, other ≠ idx → after.stamp other = policy.stamp other := by
  cases policy with
  | fifo policy =>
    obtain ⟨after, removed, lists⟩ := FifoPolicy.Lists.unlink tracks
    exact ⟨.fifo after, by simp [LeafPolicy.onNodeRemoved, removed], lists, fun _ _ => rfl⟩
  | tick policy =>
    exact ⟨_, rfl, TickPolicy.Tracks.onNodeRemoved tracks,
      fun other ne => congrArg some (update_of_ne ne _ _)⟩

theorem Tracks.congr {other : Nat → Prop} (tracks : policy.Tracks order live)
    (same : ∀ idx, other idx ↔ live idx) :
    policy.Tracks order other := by
  rw [show other = live from funext fun idx => propext (same idx)]
  exact tracks

end LeafPolicy

end PegaInfer.Kvbm
