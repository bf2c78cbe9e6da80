import PegaInfer.Gemma4.Checkpoint

namespace PegaInfer.Gemma4

open PagedRows

/-- The rows of the positions from page `origin` up to `upto` were computed from `tokens`. -/
def Holds (memory : Memory (List Token)) (pages : List Nat) (origin : Nat) (tokens : List Token)
    (upto : Nat) : Prop :=
  ∀ p, origin * 16 ≤ p → p < upto → row memory 16 pages (p - origin * 16) = some (tokens.take (p + 1))

section

variable {memory memory' : Memory (List Token)} {pages : List Nat} {origin upto : Nat} {tokens : List Token}

theorem Holds.congr (holds : Holds memory pages origin tokens upto)
    (same : ∀ page ∈ pages, memory' page = memory page) :
    Holds memory' pages origin tokens upto := by
  intro p low high
  rw [row_congr same]
  exact holds p low high

theorem Holds.append (holds : Holds memory pages origin tokens upto) (more : List Nat) :
    Holds memory (pages ++ more) origin tokens upto := by
  intro p low high
  have found := holds p low high
  rw [row_append (row_inside found)]
  exact found

/-- Pages released at the front take their positions with them. -/
theorem Holds.release (holds : Holds memory pages origin tokens upto) {origin' : Nat}
    (moved : origin ≤ origin') :
    Holds memory (pages.drop (origin' - origin)) origin' tokens upto := by
  intro p low high
  have place : (origin' - origin) * 16 + (p - origin' * 16) = p - origin * 16 := by omega
  rw [row_drop (by omega), place]
  exact holds p (by omega) high

theorem Holds.of_take {tokens' : List Token} (holds : Holds memory pages origin tokens upto)
    (same : tokens'.take upto = tokens.take upto) : Holds memory pages origin tokens' upto := by
  intro p low high
  have cut : ∀ list : List Token, list.take (p + 1) = (list.take upto).take (p + 1) := fun list => by
    rw [List.take_take, Nat.min_eq_left (by omega)]
  rw [holds p low high, cut tokens, cut tokens', same]

theorem Holds.shorten (holds : Holds memory pages origin tokens upto) {upto' : Nat} (less : upto' ≤ upto) :
    Holds memory pages origin tokens upto' := fun p low high => holds p low (high.trans_le less)

theorem Holds.cut (holds : Holds memory pages origin tokens upto) {count : Nat}
    (covered : pagesFor upto ≤ origin + count) :
    Holds memory (pages.take count) origin tokens upto := by
  intro p low high
  unfold pagesFor at covered
  rw [row_take (by omega)]
  exact holds p low high

theorem prefixesFrom_length (base ts : List Token) : (prefixesFrom base ts).length = ts.length := by
  induction ts generalizing base with
  | nil => rfl
  | cons token ts ih => rw [prefixesFrom, List.length_cons, List.length_cons, ih]

theorem prefixesFrom_getElem? (base : List Token) {ts : List Token} {i : Nat} (inside : i < ts.length) :
    (prefixesFrom base ts)[i]? = some (base ++ ts.take (i + 1)) := by
  induction ts generalizing base i with
  | nil => simp at inside
  | cons token ts ih =>
    cases i with
    | zero => simp [prefixesFrom]
    | succ i =>
      rw [prefixesFrom, List.getElem?_cons_succ, ih _ (by simpa using inside),
        List.take_succ_cons, List.append_assoc]
      rfl

/-- A pass that feeds the next tokens of a sequence appends their rows. -/
theorem Holds.written (holds : Holds memory pages origin tokens upto) (distinct : pages.Nodup)
    (starts : origin * 16 ≤ upto)
    {ts : List Token} (next : tokens.take (upto + ts.length) = tokens.take upto ++ ts)
    (covered : pagesFor (upto + ts.length) ≤ origin + pages.length) :
    Holds (write memory 16 pages (upto - origin * 16) (prefixesFrom (tokens.take upto) ts)) pages
      origin tokens (upto + ts.length) := by
  intro p low high
  unfold pagesFor at covered
  rw [row_write distinct, prefixesFrom_length]
  by_cases new : upto ≤ p
  · have offset : p - origin * 16 - (upto - origin * 16) = p - upto := by omega
    have inside : p - upto < ts.length := by omega
    have whole : tokens.take (p + 1) = tokens.take upto ++ ts.take (p - upto + 1) := by
      have cut : tokens.take (p + 1) = (tokens.take (upto + ts.length)).take (p + 1) := by
        rw [List.take_take, Nat.min_eq_left (by omega)]
      have long : (tokens.take upto).length = upto := by
        have total := congrArg List.length next
        simp only [List.length_take, List.length_append] at total ⊢
        omega
      rw [cut, next, List.take_append, long, List.take_of_length_le (by omega)]
      congr 2
      omega
    rw [if_pos ⟨by omega, by omega, by omega⟩, offset, prefixesFrom_getElem? _ inside, whole]
  · rw [if_neg (by omega)]
    exact holds p low (by omega)

/-- Rows copied into pages of their own. -/
theorem Holds.copied {targets : List Nat} (holds : Holds memory pages origin tokens upto)
    (distinct : targets.Nodup)
    (apart : ∀ page ∈ targets, page ∉ pages) (long : targets.length ≤ pages.length)
    (covered : pagesFor upto ≤ origin + targets.length) :
    Holds (copy memory (pages.zip targets)) targets origin tokens upto := by
  intro p low high
  unfold pagesFor at covered
  rw [row_copy distinct apart long (by omega)]
  exact holds p low high

end

/-- How often a page is listed. -/
def tally {α : Type} (page : Nat) (pages : α → List Nat) (items : List α) : Nat :=
  (items.map fun item => (pages item).count page).sum

section

variable {α : Type} {page : Nat} {pages : α → List Nat} {items : List α}

@[simp]
theorem tally_nil : tally page pages [] = 0 := rfl

@[simp]
theorem tally_cons (item : α) : tally page pages (item :: items) =
    (pages item).count page + tally page pages items := by
  simp [tally]

@[simp]
theorem tally_append (more : List α) : tally page pages (items ++ more) =
    tally page pages items + tally page pages more := by
  simp [tally]

theorem tally_perm {others : List α} (perm : items.Perm others) :
    tally page pages items = tally page pages others :=
  (perm.map _).sum_nat

theorem tally_pos {item : α} (member : item ∈ items) (listed : page ∈ pages item) :
    0 < tally page pages items := by
  obtain ⟨front, back, rfl⟩ := List.append_of_mem member
  have here := List.count_pos_iff.mpr listed
  rw [tally_append, tally_cons]
  omega

theorem count_reserved (free : List Nat) (n : Nat) :
    (free.take n).count page + (free.drop n).count page = free.count page := by
  rw [← List.count_append, List.take_append_drop]

end

/-- An item of a list, what replaces it and what is left without it. -/
theorem split_at_index {α : Type} {items : List α} {index : Nat} {item : α}
    (found : items[index]? = some item) :
    ∃ front back, items = front ++ item :: back ∧ (∀ other, items.set index other = front ++ other :: back) ∧
      items.eraseIdx index = front ++ back := by
  obtain ⟨inside, value⟩ := List.getElem?_eq_some_iff.mp found
  refine ⟨items.take index, items.drop (index + 1), ?_, ?_, ?_⟩
  · rw [← value]
    simp
  · intro other
    rw [List.set_eq_take_append_cons_drop, if_pos inside]
  · exact List.eraseIdx_eq_take_drop_succ items index

end PegaInfer.Gemma4
