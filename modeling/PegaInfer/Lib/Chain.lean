import Mathlib.Data.List.Basic
import Mathlib.Data.List.Nodup
import Mathlib.Logic.Function.Basic

namespace PegaInfer.Lib

open Function

section Single

variable {α : Type} {next : α → Option α} {head : Option α} {nodes : List α}

/-- `nodes` is what the singly linked list at `head` runs through. -/
inductive Chain (next : α → Option α) : Option α → List α → Prop
  | nil : Chain next none []
  | cons {a : α} {nodes : List α} : Chain next (next a) nodes → Chain next (some a) (a :: nodes)

theorem Chain.head_eq (chain : Chain next head nodes) : head = nodes.head? := by
  cases chain with
  | nil => rfl
  | cons _ => rfl

theorem Chain.tail {a : α} (chain : Chain next head (a :: nodes)) : Chain next (next a) nodes := by
  cases chain with
  | cons rest => exact rest

theorem Chain.unique {other : List α} (chain : Chain next head nodes) (again : Chain next head other) :
    nodes = other := by
  induction chain generalizing other with
  | nil =>
    cases again with
    | nil => rfl
  | cons _ ih =>
    cases again with
    | cons rest => rw [ih rest]

theorem Chain.drop {before after : List α} {a : α} (chain : Chain next head (before ++ a :: after)) :
    Chain next (some a) (a :: after) := by
  induction before generalizing head with
  | nil =>
    have start : head = some a := chain.head_eq
    exact start ▸ chain
  | cons b before ih => exact ih chain.tail

/-- A list that ends visits no node twice. -/
theorem Chain.nodup (chain : Chain next head nodes) : nodes.Nodup := by
  induction chain with
  | nil => exact .nil
  | @cons a nodes rest ih =>
    refine List.nodup_cons.mpr ⟨fun inside => ?_, ih⟩
    obtain ⟨before, after, split⟩ := List.append_of_mem inside
    have again := (split ▸ rest).drop.tail.unique rest
    have short := congrArg List.length again
    rw [split, List.length_append, List.length_cons] at short
    omega

theorem Chain.congr {other : α → Option α} (chain : Chain next head nodes)
    (agree : ∀ a ∈ nodes, other a = next a) : Chain other head nodes := by
  induction chain with
  | nil => exact .nil
  | @cons a nodes _ ih =>
    refine .cons ?_
    rw [agree a List.mem_cons_self]
    exact ih fun b inside => agree b (List.mem_cons_of_mem _ inside)

variable [DecidableEq α]

theorem Chain.update_of_notMem {a : α} {link : Option α} (chain : Chain next head nodes)
    (outside : a ∉ nodes) :
    Chain (update next a link) head nodes :=
  chain.congr fun _ inside => update_of_ne (ne_of_mem_of_not_mem inside outside) _ _

theorem Chain.push {a : α} (chain : Chain next head nodes) (fresh : a ∉ nodes) :
    Chain (update next a head) (some a) (a :: nodes) := by
  refine .cons ?_
  rw [update_self]
  exact chain.update_of_notMem fresh

/-- Cutting the node after `p` out. -/
theorem Chain.unlink {before after : List α} {p c : α} (chain : Chain next head (before ++ p :: c :: after)) :
    Chain (update next p (next c)) head (before ++ p :: after) := by
  have distinct := chain.nodup
  induction before generalizing head with
  | nil =>
    obtain rfl : head = some p := chain.head_eq
    refine .cons ?_
    rw [update_self]
    refine chain.tail.tail.update_of_notMem fun inside => ?_
    exact (List.nodup_cons.mp distinct).1 (List.mem_cons_of_mem _ inside)
  | cons b before ih =>
    obtain rfl : head = some b := chain.head_eq
    rw [List.cons_append] at distinct
    have apart : b ≠ p := fun same => (List.nodup_cons.mp distinct).1 (by simp [same])
    refine .cons ?_
    rw [update_of_ne apart]
    exact ih chain.tail (List.nodup_cons.mp distinct).2

end Single

/-- The neighbours of a node of a doubly linked list. -/
structure Link (α : Type) where
  prev : Option α
  next : Option α
  deriving DecidableEq

namespace Link

variable {α : Type} {links : α → Option (Link α)} {before after : Option α}
  {left right nodes : List α} {a : α}

/-- The links of `nodes`, a stretch of a list between the nodes `before` and `after` it. -/
def Segment (links : α → Option (Link α)) (before after : Option α) : List α → Prop
  | [] => True
  | a :: rest => links a = some ⟨before, rest.head?.or after⟩ ∧ Segment links (some a) after rest

theorem Segment.congr {other : α → Option (Link α)} (segment : Segment links before after nodes)
    (agree : ∀ a ∈ nodes, other a = links a) : Segment other before after nodes := by
  induction nodes generalizing before with
  | nil => trivial
  | cons a rest ih =>
    exact ⟨(agree a List.mem_cons_self).trans segment.1, ih segment.2 fun b inside =>
      agree b (List.mem_cons_of_mem _ inside)⟩

theorem segment_append :
    Segment links before after (left ++ right) ↔
      Segment links before (right.head?.or after) left ∧
        Segment links (left.getLast?.or before) after right := by
  induction left generalizing before with
  | nil => simp [Segment]
  | cons a rest ih =>
    rw [List.cons_append, Segment, Segment, ih, List.head?_append, Option.or_assoc, and_assoc]
    cases rest with
    | nil => simp
    | cons b rest =>
      obtain ⟨last, atLast⟩ :=
        Option.isSome_iff_exists.mp (List.getLast?_isSome.mpr (List.cons_ne_nil b rest))
      simp [List.getLast?_cons_cons, atLast]

theorem segment_cons :
    Segment links before after (a :: nodes) ↔
      links a = some ⟨before, nodes.head?.or after⟩ ∧ Segment links (some a) after nodes := Iff.rfl

/-- `nodes` in order, doubly linked; every other node has no link. -/
structure Threads (links : α → Option (Link α)) (nodes : List α) : Prop where
  distinct : nodes.Nodup
  segment : Segment links none none nodes
  absent : ∀ a, a ∉ nodes → links a = none

theorem Threads.empty : Threads (fun _ => none : α → Option (Link α)) [] :=
  ⟨.nil, trivial, fun _ _ => rfl⟩

/-- A node's link names its neighbours. -/
theorem Threads.link (threads : Threads links (left ++ a :: right)) :
    links a = some ⟨left.getLast?, right.head?⟩ := by
  have := (segment_cons.mp (segment_append.mp threads.segment).2).1
  simpa using this

section Relink

variable [DecidableEq α]

/-- Writes the `next` of `target`; a target without a link is an error. -/
def setNext (links : α → Option (Link α)) (target value : Option α) : Option (α → Option (Link α)) :=
  match target with
  | none => some links
  | some b => (links b).map fun link => update links b (some { link with next := value })

def setPrev (links : α → Option (Link α)) (target value : Option α) : Option (α → Option (Link α)) :=
  match target with
  | none => some links
  | some b => (links b).map fun link => update links b (some { link with prev := value })

/-- The last node's `next` moves from one follower to another. -/
theorem Segment.setNext_last (value : Option α) (segment : Segment links before after nodes)
    (distinct : nodes.Nodup) :
    ∃ links', setNext links nodes.getLast? value = some links' ∧ Segment links' before value nodes ∧
      ∀ b, b ∉ nodes → links' b = links b := by
  rcases List.eq_nil_or_concat nodes with rfl | ⟨init, last, rfl⟩
  · exact ⟨links, rfl, trivial, fun _ _ => rfl⟩
  · rw [List.concat_eq_append] at segment distinct ⊢
    obtain ⟨front, atLast, _⟩ := segment_append.mp segment
    have apart : last ∉ init := fun inside =>
      List.disjoint_of_nodup_append distinct inside List.mem_cons_self
    refine ⟨update links last (some ⟨init.getLast?.or before, value⟩), ?_, ?_, ?_⟩
    · simp [setNext, atLast]
    · refine segment_append.mpr ⟨?_, ?_, trivial⟩
      · exact front.congr fun b inside => update_of_ne (ne_of_mem_of_not_mem inside apart) _ _
      · simp
    · intro b outside
      exact update_of_ne (fun same => outside (by simp [same])) _ _

theorem Segment.setPrev_head (value : Option α) (segment : Segment links before after nodes)
    (distinct : nodes.Nodup) :
    ∃ links', setPrev links nodes.head? value = some links' ∧ Segment links' value after nodes ∧
      ∀ b, b ∉ nodes → links' b = links b := by
  cases nodes with
  | nil => exact ⟨links, rfl, trivial, fun _ _ => rfl⟩
  | cons first rest =>
    obtain ⟨atFirst, back⟩ := segment_cons.mp segment
    have apart := (List.nodup_cons.mp distinct).1
    refine ⟨update links first (some ⟨value, rest.head?.or after⟩), ?_, ⟨update_self .., ?_⟩, ?_⟩
    · simp [setPrev, atFirst]
    · exact back.congr fun b inside => update_of_ne (ne_of_mem_of_not_mem inside apart) _ _
    · intro b outside
      exact update_of_ne (fun same => outside (by simp [same])) _ _

theorem Threads.pushBack (threads : Threads links nodes) (fresh : a ∉ nodes) :
    ∃ links', setNext (update links a (some ⟨nodes.getLast?, none⟩)) nodes.getLast? (some a) = some links' ∧
      Threads links' (nodes ++ [a]) := by
  have kept : Segment (update links a (some ⟨nodes.getLast?, none⟩)) none none nodes :=
    threads.segment.congr fun b inside => update_of_ne (ne_of_mem_of_not_mem inside fresh) _ _
  obtain ⟨links', done, segment, others⟩ := kept.setNext_last (some a) threads.distinct
  refine ⟨links', done, ?_, segment_append.mpr ⟨by simpa using segment, ?_, trivial⟩, ?_⟩
  · exact List.nodup_append.mpr ⟨threads.distinct,
      List.nodup_singleton a, by simpa using fun b inside => ne_of_mem_of_not_mem inside fresh⟩
  · rw [others a fresh, update_self]
    simp
  · intro b outside
    rw [List.mem_append, List.mem_singleton, not_or] at outside
    rw [others b outside.1, update_of_ne outside.2, threads.absent b outside.1]

theorem Threads.unlink (threads : Threads links (left ++ a :: right)) :
    ∃ mid links', setNext (update links a none) left.getLast? right.head? = some mid ∧
      setPrev mid right.head? left.getLast? = some links' ∧ Threads links' (left ++ right) := by
  obtain ⟨front, _, back⟩ := segment_append.mp threads.segment
  obtain ⟨leftNodup, tailNodup, apart⟩ := List.nodup_append.mp threads.distinct
  obtain ⟨outRight, rightNodup⟩ := List.nodup_cons.mp tailNodup
  have outLeft : a ∉ left := fun inside => apart a inside a List.mem_cons_self rfl
  have front' : Segment (update links a none) none (some a) left := by
    simpa using front.congr fun b inside => update_of_ne (ne_of_mem_of_not_mem inside outLeft) _ _
  obtain ⟨mid, first, left', others⟩ := front'.setNext_last right.head? leftNodup
  have disjoint : ∀ b ∈ right, b ∉ left := fun b inside inLeft =>
    apart b inLeft b (List.mem_cons_of_mem _ inside) rfl
  have back' : Segment mid (some a) none right := by
    refine back.congr fun b inside => ?_
    rw [others b (disjoint b inside), update_of_ne (ne_of_mem_of_not_mem inside outRight)]
  obtain ⟨links', second, right', others'⟩ := back'.setPrev_head left.getLast? rightNodup
  refine ⟨mid, links', first, second, ?_, segment_append.mpr ⟨?_, by simpa using right'⟩, ?_⟩
  · exact List.nodup_append.mpr ⟨leftNodup, rightNodup, fun b inLeft c inRight =>
      apart b inLeft c (List.mem_cons_of_mem _ inRight)⟩
  · rw [Option.or_none]
    exact left'.congr fun b inside => others' b fun inRight => disjoint b inRight inside
  · intro b outside
    rw [List.mem_append, not_or] at outside
    rw [others' b outside.2, others b outside.1]
    by_cases same : b = a
    · rw [same, update_self]
    · rw [update_of_ne same]
      exact threads.absent b (by simp [outside, same])

end Relink

end Link

end PegaInfer.Lib
