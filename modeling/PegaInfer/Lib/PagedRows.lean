import Mathlib

namespace PegaInfer.PagedRows

/-- What a pool of pages holds: a row at each offset of each page. -/
abbrev Memory (ρ : Type*) := Nat → Nat → ρ

variable {ρ : Type*}

/-- The `i`-th row of a list of pages. -/
def row (memory : Memory ρ) (size : Nat) (pages : List Nat) (i : Nat) : Option ρ :=
  pages[i / size]?.map fun page => memory page (i % size)

/-- Store one row. -/
def put (memory : Memory ρ) (size : Nat) (pages : List Nat) (i : Nat) (value : ρ) : Memory ρ :=
  match pages[i / size]? with
  | some page => Function.update memory page (Function.update (memory page) (i % size) value)
  | none => memory

/-- Store the rows from `i` on. -/
def write (memory : Memory ρ) (size : Nat) (pages : List Nat) (i : Nat) : List ρ → Memory ρ
  | [] => memory
  | value :: values => write (put memory size pages i value) size pages (i + 1) values

/-- Copy whole pages, one after the other. -/
def copy (memory : Memory ρ) : List (Nat × Nat) → Memory ρ
  | [] => memory
  | (source, target) :: rest => copy (Function.update memory target (memory source)) rest

variable {memory : Memory ρ} {size : Nat} {pages others : List Nat} {i j : Nat}

theorem row_congr {memory' : Memory ρ} (same : ∀ page ∈ pages, memory' page = memory page) :
    row memory' size pages i = row memory size pages i := by
  unfold row
  cases at_ : pages[i / size]? with
  | none => rfl
  | some page => rw [Option.map_some, Option.map_some, same page (List.mem_of_getElem? at_)]

theorem row_inside {value : ρ} (found : row memory size pages i = some value) : i / size < pages.length := by
  obtain ⟨page, at_, -⟩ := Option.map_eq_some_iff.mp found
  exact (List.getElem?_eq_some_iff.mp at_).1

theorem put_of_notMem {page : Nat} (outside : page ∉ pages) (value : ρ) :
    put memory size pages i value page = memory page := by
  unfold put
  cases at_ : pages[i / size]? with
  | none => rfl
  | some found =>
    have other : page ≠ found := by
      rintro rfl
      exact outside (List.mem_of_getElem? at_)
    exact Function.update_of_ne other _ _

theorem row_put (distinct : pages.Nodup) (value : ρ) :
    row (put memory size pages i value) size pages j =
      if i = j ∧ i / size < pages.length then some value else row memory size pages j := by
  unfold put row
  cases atI : pages[i / size]? with
  | none =>
    have beyond : ¬ i / size < pages.length := by simpa using List.getElem?_eq_none_iff.mp atI
    simp [beyond]
  | some page =>
    obtain ⟨below, -⟩ := List.getElem?_eq_some_iff.mp atI
    by_cases same : i = j
    · subst same
      rw [if_pos ⟨rfl, below⟩, atI, Option.map_some]
      simp only [Function.update_self]
    · simp only [same, false_and, if_false]
      cases atJ : pages[j / size]? with
      | none => rfl
      | some other =>
        simp only [Option.map_some, Option.some.injEq]
        by_cases samePage : other = page
        · subst samePage
          have samePlace : i / size = j / size := by
            obtain ⟨belowI, valueI⟩ := List.getElem?_eq_some_iff.mp atI
            obtain ⟨belowJ, valueJ⟩ := List.getElem?_eq_some_iff.mp atJ
            exact (List.Nodup.getElem_inj_iff distinct).mp (valueI.trans valueJ.symm)
          have offsets : j % size ≠ i % size := by
            intro sameOffset
            have splitI := Nat.div_add_mod i size
            have splitJ := Nat.div_add_mod j size
            rw [samePlace, ← sameOffset] at splitI
            exact same (splitI.symm.trans splitJ)
          simp [Function.update_of_ne offsets]
        · simp [Function.update_of_ne samePage]

theorem write_of_notMem {page : Nat} (outside : page ∉ pages) (values : List ρ) :
    write memory size pages i values page = memory page := by
  induction values generalizing memory i with
  | nil => rfl
  | cons value values ih =>
    rw [write, ih]
    exact put_of_notMem outside value

theorem row_write (distinct : pages.Nodup) (values : List ρ) :
    row (write memory size pages i values) size pages j =
      if i ≤ j ∧ j < i + values.length ∧ j / size < pages.length then values[j - i]?
        else row memory size pages j := by
  induction values generalizing memory i with
  | nil =>
    rw [if_neg (by simp; omega)]
    rfl
  | cons value values ih =>
    rw [write, ih, row_put distinct]
    by_cases inside : j / size < pages.length
    · rcases Nat.lt_trichotomy i j with less | rfl | more
      · have shift : j - i = (j - (i + 1)) + 1 := by omega
        by_cases upto : j < i + (value :: values).length
        · have upto' : j < i + 1 + values.length := by simp only [List.length_cons] at upto; omega
          rw [if_pos ⟨by omega, upto', inside⟩, if_pos ⟨by omega, upto, inside⟩, shift,
            List.getElem?_cons_succ]
        · have upto' : ¬ j < i + 1 + values.length := by simp only [List.length_cons] at upto; omega
          rw [if_neg (by omega), if_neg (by omega), if_neg (by omega)]
      · rw [if_neg (by omega), if_pos ⟨rfl, inside⟩, if_pos ⟨le_rfl, by simp, inside⟩]
        simp
      · rw [if_neg (by omega), if_neg (by omega), if_neg (by omega)]
    · have miss : ¬ (i = j ∧ i / size < pages.length) := by
        rintro ⟨rfl, found⟩
        exact inside found
      rw [if_neg (by tauto), if_neg miss, if_neg (by tauto)]

theorem copy_of_notMem {page : Nat} {moves : List (Nat × Nat)} (outside : page ∉ moves.map Prod.snd) :
    copy memory moves page = memory page := by
  induction moves generalizing memory with
  | nil => rfl
  | cons move moves ih =>
    obtain ⟨source, target⟩ := move
    simp only [List.map_cons, List.mem_cons, not_or] at outside
    rw [copy, ih outside.2]
    exact Function.update_of_ne outside.1 _ _

/-- Pages copied into pages of their own, none of which is read. -/
theorem copy_zip {sources targets : List Nat} (distinct : targets.Nodup)
    (apart : ∀ page ∈ targets, page ∉ sources)
    {k source target : Nat} (atSource : sources[k]? = some source) (atTarget : targets[k]? = some target) :
    copy memory (sources.zip targets) target = memory source := by
  induction sources generalizing memory targets k with
  | nil => simp at atSource
  | cons first sources ih =>
    cases targets with
    | nil => simp at atTarget
    | cons head targets =>
      rw [List.zip_cons_cons, copy]
      obtain ⟨fresh, distinct'⟩ := List.nodup_cons.mp distinct
      have apart' : ∀ page ∈ targets, page ∉ sources := fun page member inside =>
        apart page (List.mem_cons_of_mem _ member) (List.mem_cons_of_mem _ inside)
      have targetsOnly : ∀ page ∈ (sources.zip targets).map Prod.snd, page ∈ targets := by
        intro page member
        obtain ⟨pair, inside, rfl⟩ := List.mem_map.mp member
        exact (List.of_mem_zip inside).2
      cases k with
      | zero =>
        simp only [List.getElem?_cons_zero, Option.some.injEq] at atSource atTarget
        subst atSource atTarget
        rw [copy_of_notMem fun member => fresh (targetsOnly _ member), Function.update_self]
      | succ k =>
        simp only [List.getElem?_cons_succ] at atSource atTarget
        rw [ih distinct' apart' atSource atTarget]
        refine Function.update_of_ne ?_ _ _
        rintro rfl
        exact apart source List.mem_cons_self (List.mem_cons_of_mem _ (List.mem_of_getElem? atSource))

theorem row_copy {sources targets : List Nat} (distinct : targets.Nodup)
    (apart : ∀ page ∈ targets, page ∉ sources)
    (long : targets.length ≤ sources.length) (inside : i / size < targets.length) :
    row (copy memory (sources.zip targets)) size targets i = row memory size sources i := by
  have atTarget : targets[i / size]? = some targets[i / size] := List.getElem?_eq_getElem inside
  have atSource : sources[i / size]? = some (sources[i / size]) := List.getElem?_eq_getElem (by omega)
  unfold row
  rw [atTarget, atSource, Option.map_some, Option.map_some, copy_zip distinct apart atSource atTarget]

/-- Rows of a list of pages, from one of its pages on. -/
theorem row_drop {skip : Nat} (positive : 0 < size) :
    row memory size (pages.drop skip) i = row memory size pages (skip * size + i) := by
  unfold row
  have whole : (skip * size + i) / size = skip + i / size := by
    rw [Nat.mul_comm, Nat.mul_add_div positive]
  have offset : (skip * size + i) % size = i % size := by
    rw [Nat.mul_comm, Nat.mul_add_mod]
  rw [whole, offset, List.getElem?_drop]

theorem row_take {count : Nat} (inside : i / size < count) :
    row memory size (pages.take count) i = row memory size pages i := by
  unfold row
  rw [List.getElem?_take_of_lt inside]

theorem row_append (inside : i / size < pages.length) :
    row memory size (pages ++ others) i = row memory size pages i := by
  unfold row
  rw [List.getElem?_append_left inside]

end PegaInfer.PagedRows
