import PegaInfer.KvStore.Budget

namespace PegaInfer.KvStore

open PegaInfer.Kvbm PegaInfer.Lib

variable {H : Type}

/-- What a holder is still owed of its lifetime: the summand of the entitled
counter. -/
def Holder.owed : Holder H → Int
  | .request kv => if kv.admitted then kv.remaining else 0
  | _ => 0

def System.owedAt (s : System H) (k : Nat) : Int :=
  match s.holders[k]? with
  | some holder => holder.owed
  | none => 0

theorem sum_range_update {n k : Nat} (f : Nat → Int) (value : Int) (inside : k < n) :
    ∑ j ∈ Finset.range n, Function.update f k value j = (∑ j ∈ Finset.range n, f j) + (value - f k) := by
  have member := Finset.mem_range.mpr inside
  have split := Finset.add_sum_erase (Finset.range n) f member
  rw [Finset.sum_update_of_mem member, Finset.sdiff_singleton_eq_erase]
  omega

theorem sum_range_longer {n m : Nat} {f : Nat → Int} (longer : n ≤ m) (zero : ∀ j, n ≤ j → f j = 0) :
    ∑ j ∈ Finset.range m, f j = ∑ j ∈ Finset.range n, f j := by
  symm
  refine Finset.sum_subset (Finset.range_subset_range.mpr longer) ?_
  intro j _ outside
  exact zero j (by simpa using outside)

def RequestKv.InBudget (request : RequestKv H) : Prop :=
  ∃ capacity, request.lifetimeBlocks = capacity ⌈/⌉ request.seq.blockSize ∧ Budgeted capacity request.seq

/-- The counter is what admitted requests are owed, no request can come to
hold more than its lifetime, and the one inside `try_admit` is not admitted. -/
structure Counted (s : System H) : Prop where
  settled : s.pool.entitled = ∑ k ∈ Finset.range s.holders.length, s.owedAt k
  budget : ∀ request, .request request ∈ s.holders → request.InBudget
  lent : ∀ k, s.gate.borrows k = true →
    ∃ request, s.holders[k]? = some (.request request) ∧ request.admitted = false

/-- A request's pages are drawn once it is created, never padded. -/
def Action.unpadded : Action → Bool
  | .call _ op => decide (op ≠ .padToBoundary)
  | _ => true

section Counts

variable {s s' : System H}

theorem System.owedAt_out {k : Nat} (out : s.holders.length ≤ k) : s.owedAt k = 0 := by
  simp [System.owedAt, List.getElem?_eq_none out]

theorem System.owedAt_set {k : Nat} {holder : Holder H} (inside : k < s.holders.length)
    (after : s'.holders = s.holders.set k holder) : s'.owedAt = Function.update s.owedAt k holder.owed := by
  funext j
  by_cases same : j = k
  · subst same
    simp [System.owedAt, after, inside]
  · rw [Function.update_of_ne same]
    simp [System.owedAt, after, List.getElem?_set_ne (Ne.symm same)]

theorem System.owedAt_append {holder : Holder H} (nothing : holder.owed = 0)
    (after : s'.holders = s.holders ++ [holder]) : s'.owedAt = s.owedAt := by
  funext j
  by_cases old : j < s.holders.length
  · simp [System.owedAt, after, List.getElem?_append_left old]
  · rw [System.owedAt_out (s := s) (by omega)]
    by_cases new : j = s.holders.length
    · subst new
      simp [System.owedAt, after, nothing]
    · exact System.owedAt_out (by simp [after]; omega)

theorem Counted.set {k : Nat} {holder holder' : Holder H} (counted : Counted s)
    (atK : s.holders[k]? = some holder)
    (after : s'.holders = s.holders.set k holder')
    (gate : s'.gate = .free ∨ s'.gate = s.gate ∧
      (s.gate.borrows k = false ∨ ∀ request, holder ≠ .request request))
    (counter : s'.pool.entitled = s.pool.entitled + (holder'.owed - holder.owed))
    (budget : ∀ request, holder' = .request request → request.InBudget) : Counted s' := by
  have inside := (List.getElem?_eq_some_iff.mp atK).1
  have before : s.owedAt k = holder.owed := by simp [System.owedAt, atK]
  refine ⟨?_, ?_, ?_⟩
  · rw [counter, counted.settled, System.owedAt_set inside after, after, List.length_set,
      sum_range_update _ _ inside,
      before]
  · intro request member
    rw [after] at member
    rcases List.mem_or_eq_of_mem_set member with old | new
    · exact counted.budget request old
    · exact budget request new.symm
  · intro j borrows
    rcases gate with free | ⟨same, apart⟩
    · rw [free] at borrows
      simp [Gate.borrows] at borrows
    · rw [same] at borrows
      obtain ⟨request, atJ, fresh⟩ := counted.lent j borrows
      have other : k ≠ j := by
        rintro rfl
        rcases apart with idle | kind
        · simp [idle] at borrows
        · exact kind request (Option.some.inj (atK.symm.trans atJ))
      rw [after, List.getElem?_set_ne other]
      exact ⟨request, atJ, fresh⟩

theorem Counted.append {holder : Holder H} (counted : Counted s) (after : s'.holders = s.holders ++ [holder])
    (nothing : holder.owed = 0) (counter : s'.pool.entitled = s.pool.entitled)
    (gate : s'.gate = .free ∨ s'.gate = s.gate)
    (budget : ∀ request, holder = .request request → request.InBudget) : Counted s' := by
  refine ⟨?_, ?_, ?_⟩
  · rw [counter, counted.settled, System.owedAt_append nothing after]
    symm
    refine sum_range_longer (by simp [after]) ?_
    exact fun j out => System.owedAt_out out
  · intro request member
    rw [after] at member
    rcases List.mem_append.mp member with old | new
    · exact counted.budget request old
    · exact budget request (List.mem_singleton.mp new).symm
  · intro j borrows
    rcases gate with free | same
    · rw [free] at borrows
      simp [Gate.borrows] at borrows
    · rw [same] at borrows
      obtain ⟨request, atJ, fresh⟩ := counted.lent j borrows
      have inside := (List.getElem?_eq_some_iff.mp atJ).1
      exact ⟨request, by rw [after, List.getElem?_append_left inside]; exact atJ, fresh⟩

/-- No holder moves. -/
theorem Counted.turn (counted : Counted s) (after : s'.holders = s.holders)
    (counter : s'.pool.entitled = s.pool.entitled)
    (lent : ∀ k, s'.gate.borrows k = true → s.gate.borrows k = true ∨
      ∃ request, s.holders[k]? = some (.request request) ∧ request.admitted = false) : Counted s' := by
  refine ⟨?_, ?_, ?_⟩
  · have owed : s'.owedAt = s.owedAt := by
      funext k
      simp only [System.owedAt, after]
    rw [counter, counted.settled, owed, after]
  · intro request member
    exact counted.budget request (after ▸ member)
  · intro k borrows
    rw [after]
    exact (lent k borrows).elim (counted.lent k) id

end Counts

/-- The pinned blocks each admission was credited with that its match has not
folded in yet. -/
abbrev Credits := Nat → Nat

/-- The blocks promised beyond the ones already pinned. -/
def System.outstanding (s : System H) (credits : Credits) : Int :=
  ∑ k ∈ Finset.range s.holders.length, (s.owedAt k - credits k)

/-- What the pool has above the entitled floor. -/
def System.slack (s : System H) (credits : Credits) : Int :=
  s.pool.availableBlocks + (∑ k ∈ Finset.range s.holders.length, (credits k : Int)) - s.pool.entitled

/-- What the call that has the gate relies on. -/
def System.GateOk (s : System H) (credits : Credits) : Prop :=
  match s.gate with
  | .free => True
  | .admitting k credited available => available ≤ s.pool.availableBlocks ∧
    ∃ request, s.holders[k]? = some (.request request) ∧ request.admitted = false ∧
      (credited : Int) ≤ request.remaining
  | .reserving _ available => available ≤ s.pool.availableBlocks
  | .granted count => count + s.outstanding credits ≤ s.pool.availableBlocks

/-- The entitled floor: no one is owed less than it was credited, and the
pool covers the rest. -/
structure Floor (s : System H) (credits : Credits) : Prop where
  counted : Counted s
  owed : ∀ k, (credits k : Int) ≤ s.owedAt k
  covered : s.outstanding credits ≤ s.pool.availableBlocks
  gate : s.GateOk credits

section Sums

variable {s s' : System H} {credits : Credits}

theorem Floor.outstanding_eq (floor : Floor s credits) :
    s.slack credits = s.pool.availableBlocks - s.outstanding credits := by
  unfold System.slack System.outstanding
  rw [floor.counted.settled, Finset.sum_sub_distrib]
  omega

theorem Floor.outstanding_le (floor : Floor s credits) : s.outstanding credits ≤ s.pool.entitledBlocks := by
  have counter : s.outstanding credits ≤ s.pool.entitled := by
    rw [floor.counted.settled]
    refine Finset.sum_le_sum ?_
    intro k _
    omega
  exact counter.trans (Int.self_le_toNat _)

theorem Floor.credits_out (floor : Floor s credits) {k : Nat} (out : s.holders.length ≤ k) :
    credits k = 0 := by
  have owed := floor.owed k
  rw [System.owedAt_out out] at owed
  omega

/-- No one else's promise is touched by what one request is owed. -/
theorem Floor.owed_le (floor : Floor s credits) {k : Nat} (inside : k < s.holders.length) :
    s.owedAt k - credits k ≤ s.pool.availableBlocks := by
  refine le_trans ?_ floor.covered
  refine Finset.single_le_sum (f := fun k => s.owedAt k - (credits k : Int)) ?_ (Finset.mem_range.mpr inside)
  intro j _
  have owed := floor.owed j
  omega

/-- The request inside `try_admit` stays where it is. -/
def System.Lends (s s' : System H) : Prop :=
  ∀ k request, s.gate.borrows k = true → s.holders[k]? = some (.request request) →
    s'.holders[k]? = some (.request request)

theorem System.Lends.append {holder : Holder H}
    (after : s'.holders = s.holders ++ [holder]) : s.Lends s' := by
  intro k request _ atK
  rw [after, List.getElem?_append_left (List.getElem?_eq_some_iff.mp atK).1]
  exact atK

theorem System.Lends.set {k : Nat} {holder holder' : Holder H} (atK : s.holders[k]? = some holder)
    (free : s.gate.borrows k = false ∨ ∀ request, holder ≠ .request request)
    (after : s'.holders = s.holders.set k holder') : s.Lends s' := by
  intro j request borrows atJ
  have other : k ≠ j := by
    rintro rfl
    rcases free with idle | kind
    · simp [idle] at borrows
    · rw [atK] at atJ
      exact kind request (Option.some.inj atJ)
  rw [after, List.getElem?_set_ne other]
  exact atJ

theorem System.GateOk.keep {credits' : Credits} (gate : s.GateOk credits) (same : s'.gate = s.gate)
    (more : s.gate = .free ∨ s.pool.availableBlocks ≤ s'.pool.availableBlocks)
    (less : s'.outstanding credits' ≤ s.outstanding credits) (lends : s.Lends s') : s'.GateOk credits' := by
  unfold System.GateOk at gate ⊢
  rw [same]
  cases held : s.gate with
  | free => trivial
  | admitting k credited available =>
    simp only [held, reduceCtorEq, false_or] at gate more ⊢
    obtain ⟨read, request, atK, fresh, room⟩ := gate
    exact ⟨read.trans more, request, lends k request (by simp [held, Gate.borrows]) atK, fresh, room⟩
  | reserving count available =>
    simp only [held, reduceCtorEq, false_or] at gate more ⊢
    exact gate.trans more
  | granted count =>
    simp only [held, reduceCtorEq, false_or] at gate more ⊢
    omega

/-- A move that changes what no one is owed. -/
theorem Floor.carry (floor : Floor s credits) (counted : Counted s') (owed : s'.owedAt = s.owedAt)
    (longer : s.holders.length ≤ s'.holders.length)
    (covered : s.outstanding credits ≤ s'.pool.availableBlocks)
    (gate : s'.outstanding credits = s.outstanding credits → s'.GateOk credits) : Floor s' credits := by
  have sums : s'.outstanding credits = s.outstanding credits := by
    unfold System.outstanding
    rw [owed]
    refine sum_range_longer longer ?_
    intro j out
    rw [System.owedAt_out out, floor.credits_out out]
    rfl
  exact ⟨counted, by rw [owed]; exact floor.owed, by rw [sums]; exact covered, gate sums⟩

/-- A move of one holder with what it is owed and credited. -/
theorem Floor.set {k credit : Nat} {holder holder' : Holder H} (floor : Floor s credits)
    (counted : Counted s')
    (atK : s.holders[k]? = some holder) (after : s'.holders = s.holders.set k holder')
    (owed : (credit : Int) ≤ holder'.owed)
    (covered : s.outstanding credits + (holder'.owed - credit - (holder.owed - credits k)) ≤
      s'.pool.availableBlocks)
    (gate : s'.outstanding (Function.update credits k credit) =
        s.outstanding credits + (holder'.owed - credit - (holder.owed - credits k)) →
      s'.GateOk (Function.update credits k credit)) :
    Floor s' (Function.update credits k credit) := by
  have inside := (List.getElem?_eq_some_iff.mp atK).1
  have before : s.owedAt k = holder.owed := by simp [System.owedAt, atK]
  have owedAt := System.owedAt_set inside after
  have length : s'.holders.length = s.holders.length := by rw [after, List.length_set]
  have sums : s'.outstanding (Function.update credits k credit) =
      s.outstanding credits + (holder'.owed - credit - (holder.owed - credits k)) := by
    unfold System.outstanding
    have merged : (fun j => s'.owedAt j - (Function.update credits k credit j : Int)) =
        Function.update (fun j => s.owedAt j - (credits j : Int)) k (holder'.owed - credit) := by
      funext j
      rw [owedAt]
      by_cases same : j = k
      · subst same
        simp
      · simp [Function.update_of_ne same]
    rw [length, merged, sum_range_update _ _ inside, before]
  refine ⟨counted, ?_, by rw [sums]; exact covered, gate sums⟩
  intro j
  rw [owedAt]
  by_cases same : j = k
  · subst same
    simpa using owed
  · simpa [Function.update_of_ne same] using floor.owed j

end Sums

section Runs

variable [DecidableEq H] [SequenceHashing H]

/-- Requests draw once admitted. A credit counts pinned blocks of the
request's own prefix, and the next call of a credited request is the match
that folds them in. -/
def System.promised (s : System H) (credits : Credits) : Action → Bool
  | .call k op =>
    match s.holders[k]? with
    | some (.request request) =>
      request.admitted && decide (op ≠ .padToBoundary) &&
        (decide (credits k = 0) ||
          decide (op = .matchAndAddPrefix ∧ request.seq.state = .idle ∧ request.seq.heldBlocks = 0 ∧
            credits k ≤ pinnedPrefix s.pool.store request.seq))
    | _ => true
  | .admitRead k credited =>
    match s.holders[k]? with
    | some (.request request) =>
      decide (credited = 0 ∨
        request.seq.heldBlocks = 0 ∧ credited ≤ pinnedPrefix s.pool.store request.seq)
    | _ => true
  | _ => true

/-- A call that takes `revived` blocks from the inactive pool without having
asked for them leaves the floor alone: it takes no more than the slack, and
nothing between the reading and the use of the available count. -/
def System.affords (s : System H) (credits : Credits) (revived : Nat) : Bool :=
  match s.gate with
  | .free => decide ((revived : Int) ≤ s.slack credits)
  | _ => decide (revived = 0)

def System.spares (s : System H) (credits : Credits) : Action → Bool
  | .call k op =>
    match s.holders[k]? with
    | some (.request request) => op.refused request.seq ||
      s.affords credits (op.revived request.seq s.pool.store)
    | _ => true
  | .probe prompt salt =>
    s.affords credits (revivals s.pool.store
      (s.pool.store.residentPrefix (sequenceHashes s.pool.blockSize salt prompt)))
  | .commit p r =>
    match s.holders[p]?, s.holders[r]? with
    | some (.probe probe), some (.reservation ids) =>
      s.affords credits (revivals s.pool.store ((probe.seqHashes.drop probe.gpuHit).take ids.length))
    | _, _ => true
  | _ => true

/-- The credits after one move. -/
def System.creditsAfter (s : System H) (credits : Credits) (s' : System H) : Action → Credits
  | .admitDecide =>
    match s.gate with
    | .admitting k credited _ =>
      match s'.holders[k]? with
      | some (.request request) => if request.admitted then Function.update credits k credited else credits
      | _ => credits
    | _ => credits
  | .call k .matchAndAddPrefix => Function.update credits k 0
  | .retire k => Function.update credits k 0
  | _ => credits

/-- A run with the credits outstanding on the way. -/
inductive EntitledReach (permitted : System H → Credits → Action → Bool) (blockSize numBlocks : Nat) :
    System H → Credits → Prop
  | start {s : System H} (made : System.new blockSize numBlocks = some s) :
      EntitledReach permitted blockSize numBlocks s fun _ => 0
  | next {s s' : System H} {credits : Credits} {a : Action}
      (before : EntitledReach permitted blockSize numBlocks s credits)
      (allowed : permitted s credits a = true) (went : s.step a = some s') :
      EntitledReach permitted blockSize numBlocks s' (s.creditsAfter credits s' a)

end Runs

end PegaInfer.KvStore
