import Mathlib

namespace PegaInfer.Autoregressive

/-- `count` values produced one at a time, each appended to the context the
next one is asked for. The first is asked for at sampling step `step`. -/
def generate {α : Type*} (oracle : List α → Nat → α) : Nat → List α → Nat → List α
  | 0, _, _ => []
  | count + 1, context, step =>
    oracle context step :: generate oracle count (context ++ [oracle context step]) (step + 1)

@[simp]
theorem length_generate {α : Type*} (oracle : List α → Nat → α) (count : Nat)
    (context : List α) (step : Nat) :
    (generate oracle count context step).length = count := by
  induction count generalizing context step with
  | zero => rfl
  | succ count ih => simp only [generate, List.length_cons, ih]

theorem generate_add {α : Type*} (oracle : List α → Nat → α) (first second : Nat)
    (context : List α) (step : Nat) :
    generate oracle (first + second) context step = generate oracle first context step ++
      generate oracle second (context ++ generate oracle first context step) (step + first) := by
  induction first generalizing context step with
  | zero => simp [generate]
  | succ first ih =>
    have shifted : first + 1 + second = (first + second) + 1 := by omega
    have later : step + 1 + first = step + (first + 1) := by omega
    rw [shifted]
    simp only [generate, ih, List.cons_append, List.append_assoc, List.nil_append, later]

/-- How many leading proposals agree with the value the target gives there. -/
def agreedLength {α : Type*} [DecidableEq α] (proposed targets : List α) : Nat :=
  ((proposed.zip targets).takeWhile fun pair => pair.1 == pair.2).length

theorem agreedLength_le {α : Type*} [DecidableEq α] (proposed targets : List α) :
    agreedLength proposed targets ≤ proposed.length := by
  have short : agreedLength proposed targets ≤ (proposed.zip targets).length :=
    (List.takeWhile_sublist _).length_le
  rw [List.length_zip] at short
  exact short.trans (Nat.min_le_left _ _)

theorem agreedLength_cons {α : Type*} [DecidableEq α] (proposal target : α) (proposed targets : List α) :
    agreedLength (proposal :: proposed) (target :: targets) =
      if proposal = target then agreedLength proposed targets + 1 else 0 := by
  by_cases same : proposal = target
  · simp [agreedLength, same]
  · simp [agreedLength, same]

/-- Whatever was proposed, the agreed prefix together with the target's value
after it is a run of the generator. The targets only have to be right for the
contexts made of the proposals before them. -/
theorem agreed_generates {α : Type*} [DecidableEq α] (oracle : List α → Nat → α)
    {proposed targets context : List α}
    {step : Nat} (length : targets.length = proposed.length + 1)
    (verified : ∀ row (bound : row < targets.length), targets[row] =
      oracle (context ++ proposed.take row) (step + row)) :
    proposed.take (agreedLength proposed targets) ++ (targets[agreedLength proposed targets]?).toList =
      generate oracle (agreedLength proposed targets + 1) context step := by
  induction proposed generalizing targets context step with
  | nil =>
    obtain ⟨target, rfl⟩ := List.length_eq_one_iff.mp length
    have first := verified 0 (by simp)
    simp only [List.getElem_cons_zero, List.take_nil, List.append_nil, Nat.add_zero] at first
    simp [agreedLength, generate, first]
  | cons proposal proposed ih =>
    obtain _ | ⟨target, targets⟩ := targets
    · simp at length
    have first := verified 0 (by simp)
    simp only [List.getElem_cons_zero, List.take_zero, List.append_nil, Nat.add_zero] at first
    rw [agreedLength_cons]
    by_cases same : proposal = target
    · subst same
      have rest := @ih targets (context ++ [proposal]) (step + 1)
        (by simpa using length) (fun row bound => by
          have later := verified (row + 1) (by simpa using bound)
          simpa [Nat.add_assoc, Nat.add_comm 1 row] using later)
      have unfolded : generate oracle (agreedLength proposed targets + 1 + 1) context step =
          proposal :: generate oracle (agreedLength proposed targets + 1)
            (context ++ [proposal]) (step + 1) := by
        rw [first]
        rfl
      simp only [if_true, List.take_succ_cons, List.getElem?_cons_succ, List.cons_append, rest, unfolded]
    · rw [if_neg same, generate, generate, ← first]
      rfl

end PegaInfer.Autoregressive
