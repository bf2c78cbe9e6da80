import Mathlib

namespace PegaInfer

section

variable {α : Type*}

/-- The operations of a stream come in the order of their keys. -/
def Ordered (key : α → Nat) (stream : List α) : Prop := stream.Pairwise (key · ≤ key ·)

namespace Ordered

variable {key : α → Nat} {stream ran rest : List α} {op other : α}

theorem append {early late : List α} (bound : Nat) (first : Ordered key early) (second : Ordered key late)
    (below : ∀ op ∈ early, key op ≤ bound) (above : ∀ op ∈ late, bound ≤ key op) :
    Ordered key (early ++ late) :=
  List.pairwise_append.mpr ⟨first, second, fun op before other after =>
    (below op before).trans (above other after)⟩

theorem constant {value : Nat} (same : ∀ op ∈ stream, key op = value) : Ordered key stream := by
  refine List.Pairwise.imp_of_mem ?_ (List.pairwise_of_forall (R := fun _ _ => True) fun _ _ => trivial)
  intro op other first second _
  rw [same op first, same other second]

/-- What comes earlier than the next operation has run. -/
theorem ran_of_next (ordered : Ordered key stream) (next : stream = ran ++ op :: rest)
    (member : other ∈ stream)
    (less : key other < key op) : other ∈ ran := by
  rw [next] at member
  rcases List.mem_append.mp member with early | late
  · exact early
  · rw [Ordered, next] at ordered
    have later := (List.pairwise_cons.mp (List.pairwise_append.mp ordered).2.1).1
    rcases List.mem_cons.mp late with rfl | after
    · omega
    · have := later other after
      omega

/-- What has run does not come later than the next operation. -/
theorem le_next (ordered : Ordered key stream) (next : stream = ran ++ op :: rest)
    (member : other ∈ ran) : key other ≤ key op := by
  rw [Ordered, next] at ordered
  exact (List.pairwise_append.mp ordered).2.2 other member op List.mem_cons_self

/-- What comes earlier than something that has run has run as well. -/
theorem ran_of_ran (ordered : Ordered key stream) (isPrefix : ran <+: stream) (done : op ∈ ran)
    (member : other ∈ stream)
    (less : key other < key op) : other ∈ ran := by
  obtain ⟨late, rfl⟩ := isPrefix
  rcases List.mem_append.mp member with early | after
  · exact early
  · have order := (List.pairwise_append.mp ordered).2.2 op done other after
    omega

/-- The next operation does not come later than anything that has not run. -/
theorem next_le (ordered : Ordered key stream) (next : stream = ran ++ op :: rest) (member : other ∈ stream)
    (open_ : other ∉ ran) : key op ≤ key other := by
  by_contra later
  exact open_ (ordered.ran_of_next next member (by omega))

end Ordered

end

section

variable {ι α : Type*} [DecidableEq ι]

/-- What a stream has run, by the log of all of them. -/
def ranBy (log : List (ι × α)) (stream : ι) : List α :=
  (log.filter (·.1 = stream)).map (·.2)

@[simp] theorem ranBy_nil (stream : ι) : ranBy ([] : List (ι × α)) stream = [] := rfl

@[simp] theorem ranBy_append_self (log : List (ι × α)) (stream : ι) (op : α) :
    ranBy (log ++ [(stream, op)]) stream = ranBy log stream ++ [op] := by
  simp [ranBy]

theorem ranBy_append_other (log : List (ι × α)) {stream other : ι} (op : α) (differ : stream ≠ other) :
    ranBy (log ++ [(stream, op)]) other = ranBy log other := by
  simp [ranBy, differ]

theorem mem_ranBy {log : List (ι × α)} {stream : ι} {op : α} :
    op ∈ ranBy log stream ↔ (stream, op) ∈ log := by
  constructor
  · intro member
    obtain ⟨⟨owner, same⟩, ran, rfl⟩ := List.mem_map.mp member
    obtain ⟨present, mine⟩ := List.mem_filter.mp ran
    cases of_decide_eq_true mine
    exact present
  · intro member
    exact List.mem_map.mpr ⟨(stream, op), List.mem_filter.mpr ⟨member, decide_eq_true rfl⟩, rfl⟩

theorem mem_ranBy_append {log : List (ι × α)} {stream other : ι} {op old : α} (ran : old ∈ ranBy log other) :
    old ∈ ranBy (log ++ [(stream, op)]) other :=
  mem_ranBy.mpr (List.mem_append_left _ (mem_ranBy.mp ran))

end

section

variable {ι α : Type*}

/-- Streams cannot wait for one another in a circle when a blocked operation always
waits for one of a smaller key. -/
theorem Ordered.not_stuck {key : α → Nat} {stream ran : ι → List α} {enabled : ι → α → Prop}
    (ordered : ∀ i, Ordered key (stream i)) (prefixes : ∀ i, ran i <+: stream i)
    (waits : ∀ i op rest, stream i = ran i ++ op :: rest → ¬ enabled i op →
      ∃ j, ∃ other ∈ stream j, other ∉ ran j ∧ key other < key op)
    (unfinished : ∃ i, ran i ≠ stream i) : ∃ i op rest, stream i = ran i ++ op :: rest ∧ enabled i op := by
  have next : ∀ i other, other ∈ stream i → other ∉ ran i → ∃ op rest, stream i = ran i ++ op :: rest := by
    intro i other member open_
    obtain ⟨late, whole⟩ := prefixes i
    cases late with
    | nil =>
      rw [List.append_nil] at whole
      exact absurd (whole ▸ member) open_
    | cons op rest => exact ⟨op, rest, whole.symm⟩
  have least : ∀ bound i op rest, key op ≤ bound → stream i = ran i ++ op :: rest →
      ∃ i op rest, stream i = ran i ++ op :: rest ∧ enabled i op := by
    intro bound
    induction bound with
    | zero =>
      intro i op rest small here
      by_cases free : enabled i op
      · exact ⟨i, op, rest, here, free⟩
      · obtain ⟨j, other, _, _, less⟩ := waits i op rest here free
        omega
    | succ bound ih =>
      intro i op rest small here
      by_cases free : enabled i op
      · exact ⟨i, op, rest, here, free⟩
      · obtain ⟨j, other, member, open_, less⟩ := waits i op rest here free
        obtain ⟨first, after, there⟩ := next j other member open_
        have order := (ordered j).next_le there member open_
        exact ih j first after (by omega) there
  obtain ⟨i, differ⟩ := unfinished
  obtain ⟨late, whole⟩ := prefixes i
  cases late with
  | nil => exact absurd (by rw [← whole, List.append_nil]) differ
  | cons op rest => exact least _ i op rest (Nat.le_refl _) whole.symm

end

end PegaInfer
