import Mathlib

namespace PegaInfer

/-- A reader of a byte stream: the value and the bytes left over, or an error. -/
def Reader (α : Type) : Type := List UInt8 → Except String (α × List UInt8)

namespace Reader

variable {α β : Type}

def return_ (value : α) : Reader α := fun bytes => .ok (value, bytes)

def andThen (reader : Reader α) (next : α → Reader β) : Reader β := fun bytes =>
  match reader bytes with
  | .ok (value, rest) => next value rest
  | .error message => .error message

instance : Monad Reader where
  pure := return_
  bind := andThen

def fail (message : String) : Reader α := fun _ => .error message

def ensure (condition : Bool) (message : String) : Reader Unit :=
  if condition then return_ () else fail message

/-- `read_exact`. -/
def exact (context : String) (count : Nat) : Reader (List UInt8) := fun bytes =>
  if count ≤ bytes.length then .ok (bytes.take count, bytes.drop count) else .error context

/-- One value after another until nothing is left. -/
def all (reader : Reader α) : (fuel : Nat) → List UInt8 → Except String (List α)
  | _, [] => .ok []
  | 0, _ :: _ => .error "out of fuel"
  | fuel + 1, byte :: bytes =>
    match reader (byte :: bytes) with
    | .ok (value, rest) => (reader.all fuel rest).map (value :: ·)
    | .error message => .error message

/-- The reader takes exactly these bytes and makes this value of them. -/
def Decodes (reader : Reader α) (bytes : List UInt8) (value : α) : Prop :=
  ∀ rest, reader (bytes ++ rest) = .ok (value, rest)

/-- More input does not change what the reader has made of the front of it. -/
def Extends (reader : Reader α) : Prop :=
  ∀ bytes value rest more, reader bytes = .ok (value, rest) →
    reader (bytes ++ more) = .ok (value, rest ++ more)

theorem Decodes.return_ (value : α) : Decodes (pure value) [] value := fun _ => rfl

theorem Decodes.andThen {reader : Reader α} {next : α → Reader β} {early late : List UInt8}
    {first : α} {second : β}
    (head : Decodes reader early first) (tail : Decodes (next first) late second) :
    Decodes (reader >>= next) (early ++ late) second := by
  intro rest
  show Reader.andThen reader next (early ++ late ++ rest) = .ok (second, rest)
  rw [Reader.andThen, List.append_assoc, head]
  exact tail rest

/-- A step of the reader that takes no input. -/
theorem Decodes.silent {reader : Reader α} {next : α → Reader β} {bytes : List UInt8} {first : α} {second : β}
    (head : Decodes reader [] first) (tail : Decodes (next first) bytes second) :
    Decodes (reader >>= next) bytes second :=
  head.andThen tail

theorem Decodes.map {reader : Reader α} {bytes : List UInt8} {first : α} (f : α → β)
    (head : Decodes reader bytes first) :
    Decodes (reader >>= fun value => pure (f value)) bytes (f first) := by
  have whole : Decodes (reader >>= fun value => pure (f value)) (bytes ++ []) (f first) :=
    head.andThen (.return_ (f first))
  rw [List.append_nil] at whole
  exact whole

theorem Decodes.ensure {condition : Bool} (message : String) (holds : condition = true) :
    Decodes (Reader.ensure condition message) [] () := by
  intro rest
  rw [Reader.ensure, if_pos holds]
  rfl

theorem Decodes.exact (context : String) (bytes : List UInt8) :
    Decodes (Reader.exact context bytes.length) bytes bytes := by
  intro rest
  rw [Reader.exact, if_pos (by rw [List.length_append]; omega), List.take_left, List.drop_left]

theorem Extends.return_ (value : α) : Extends (pure value : Reader α) := by
  intro bytes read rest more ran
  cases ran
  rfl

theorem Extends.fail (message : String) : Extends (Reader.fail message : Reader α) := by
  intro bytes read rest more ran
  cases ran

theorem Extends.ensure (condition : Bool) (message : String) : Extends (Reader.ensure condition message) := by
  rw [Reader.ensure]
  split
  · exact Extends.return_ ()
  · exact Extends.fail message

theorem Extends.exact (context : String) (count : Nat) : Extends (Reader.exact context count) := by
  intro bytes value rest more ran
  rw [Reader.exact] at ran ⊢
  split at ran
  · next enough =>
    cases ran
    rw [if_pos (by rw [List.length_append]; omega), List.take_append_of_le_length enough,
      List.drop_append_of_le_length enough]
  · cases ran

theorem Extends.andThen {reader : Reader α} {next : α → Reader β} (head : Extends reader)
    (tail : ∀ value, Extends (next value)) : Extends (reader >>= next) := by
  intro bytes value rest more ran
  change Reader.andThen reader next bytes = _ at ran
  show Reader.andThen reader next (bytes ++ more) = _
  rw [Reader.andThen] at ran ⊢
  split at ran
  · next first middle read =>
    rw [head bytes first middle more read]
    exact tail first middle value rest more ran
  · cases ran

/-- No strict prefix of what a reader decodes is accepted. -/
theorem Decodes.not_cut_short {reader : Reader α} {bytes early : List UInt8} {value : α}
    (decodes : Decodes reader bytes value)
    (extends_ : Extends reader) (isPrefix : early <+: bytes) (strict : early ≠ bytes) :
    ∃ message, reader early = .error message := by
  obtain ⟨late, rfl⟩ := isPrefix
  cases ran : reader early with
  | error message => exact ⟨message, rfl⟩
  | ok result =>
    obtain ⟨other, rest⟩ := result
    have whole := decodes []
    rw [List.append_nil, extends_ early other rest late ran] at whole
    cases whole_ : rest ++ late with
    | nil =>
      obtain ⟨_, rfl⟩ := List.append_eq_nil_iff.mp whole_
      exact absurd (List.append_nil early).symm strict
    | cons =>
      rw [whole_] at whole
      cases whole

/-- Encodings that are not empty, one after another, decode to the list. -/
theorem all_flatten {reader : Reader α} {frames : List (List UInt8)} {values : List α} {fuel : Nat}
    (decodes : List.Forall₂ (fun bytes value => bytes ≠ [] ∧ Decodes reader bytes value) frames values)
    (enough : frames.length ≤ fuel) : reader.all fuel frames.flatten = .ok values := by
  induction decodes generalizing fuel with
  | nil => cases fuel <;> rfl
  | @cons bytes value frames values head tail ih =>
    obtain ⟨nonempty, decodes⟩ := head
    cases fuel with
    | zero => cases enough
    | succ fuel =>
      have rest := ih (Nat.le_of_succ_le_succ enough)
      obtain ⟨byte, more, rfl⟩ := List.exists_cons_of_ne_nil nonempty
      have read := decodes frames.flatten
      rw [List.cons_append] at read
      rw [List.flatten_cons, List.cons_append, Reader.all, read]
      simp only [rest, Except.map]

end Reader

/-- `to_le_bytes` of a number of `width` bytes. -/
def leBytes : (width value : Nat) → List UInt8
  | 0, _ => []
  | width + 1, value => UInt8.ofNat value :: leBytes width (value / 256)

/-- `from_le_bytes`. -/
def fromLe : List UInt8 → Nat
  | [] => 0
  | byte :: bytes => byte.toNat + 256 * fromLe bytes

@[simp] theorem leBytes_length (width value : Nat) : (leBytes width value).length = width := by
  induction width generalizing value with
  | zero => rfl
  | succ width ih => simp only [leBytes, List.length_cons, ih]

theorem fromLe_leBytes {width value : Nat} (fits : value < 256 ^ width) :
    fromLe (leBytes width value) = value := by
  induction width generalizing value with
  | zero =>
    rw [Nat.pow_zero] at fits
    simp only [leBytes, fromLe]
    omega
  | succ width ih =>
    have less : value / 256 < 256 ^ width := by
      rw [Nat.pow_succ] at fits
      omega
    simp only [leBytes, fromLe, ih less, UInt8.toNat_ofNat']
    omega

/-- A little-endian number of fixed width, read back. -/
theorem Reader.Decodes.word (context : String) {width value : Nat} (fits : value < 256 ^ width) :
    (Reader.exact context width >>= fun bytes => pure (fromLe bytes)).Decodes
      (leBytes width value) value := by
  have read := Reader.Decodes.exact context (leBytes width value)
  rw [leBytes_length] at read
  have whole := read.map fromLe
  rw [fromLe_leBytes fits] at whole
  exact whole

end PegaInfer
